import Peg.Proofs.Json.Tokens
import Peg.Proofs.Scan.Lists

/-!
# Values of JSON texts

What the rules of the grammar for values, arrays and objects recognize. The kinds of values begin
with different characters, so that the order in which they are tried makes no difference. Arrays and
objects are lists in brackets, and what is in the brackets is shorter than the whole.
-/
namespace Peg.Json

open Scan Scan.Recognizes Syntax
open Intake (must_append)

/-! ### Languages -/

/-- The text of a value that keeps to a limit. -/
def IsValue (limit : Option Nat) (text : List Char) : Prop :=
  ∃ value : Syntax.Value, (∀ most, limit = some most → value.Within most) ∧ value.chars = text

/-- The text of a name with its value, where the limit is kept to. -/
def IsPair (limit : Option Nat) (text : List Char) : Prop :=
  ∃ name after before value, IsString limit name ∧ (∀ c ∈ after, isBlank c = true) ∧
    (∀ c ∈ before, isBlank c = true) ∧ IsValue limit value ∧
      name ++ (after ++ ':' :: (before ++ value)) = text

theorem padded_isValue_iff (limit : Option Nat) (text : List Char) :
    Padded isBlank (IsValue limit) text ↔ ∃ element : Element,
      (∀ most, limit = some most → element.Within most) ∧ element.chars = text := by
  constructor
  · rintro ⟨before, _, after, front, ⟨value, within, rfl⟩, back, rfl⟩
    exact ⟨.mk ⟨before, front⟩ value ⟨after, back⟩, within, rfl⟩
  · rintro ⟨⟨before, value, after⟩, within, rfl⟩
    exact ⟨before.val, value.chars, after.val, before.property, ⟨value, within, rfl⟩,
      after.property, rfl⟩

theorem padded_isPair_iff (limit : Option Nat) (text : List Char) :
    Padded isBlank (IsPair limit) text ↔ ∃ member : Member,
      (∀ most, limit = some most → member.Within most) ∧ member.chars = text := by
  constructor
  · rintro ⟨before, _, after, front, ⟨_, mid, next, _, ⟨name, short, rfl⟩, midBlank, nextBlank,
      ⟨value, within, rfl⟩, rfl⟩, back, rfl⟩
    refine ⟨.mk ⟨before, front⟩ name ⟨mid, midBlank⟩ (.mk ⟨next, nextBlank⟩ value ⟨after, back⟩),
      ?_, by simp [Member.chars, Element.chars]⟩
    exact fun most limited => ⟨short most limited, within most limited⟩
  · rintro ⟨⟨before, name, mid, ⟨next, value, after⟩⟩, within, rfl⟩
    refine ⟨before.val, _, after.val, before.property, ⟨name.chars, mid.val, next.val, value.chars,
      ⟨name, ?_, rfl⟩, mid.property, next.property, ⟨value, ?_, rfl⟩, rfl⟩, after.property,
      by simp [Member.chars, Element.chars]⟩
    · exact fun most limited => (within most limited).1
    · exact fun most limited => (within most limited).2

/-- The text of an array that keeps to a limit. -/
def IsArray (limit : Option Nat) : List Char → Prop :=
  Bracketed isBlank (IsValue limit) limit '[' ']'

/-- The text of an object that keeps to a limit. -/
def IsObject (limit : Option Nat) : List Char → Prop :=
  Bracketed isBlank (IsPair limit) limit '\x7b' '\x7d'

theorem isArray_iff {limit : Option Nat} {text : List Char} : IsArray limit text ↔
    (∃ inside, (Syntax.Value.emptyArray inside).chars = text) ∨ ∃ first rest,
      (∀ most, limit = some most → (Syntax.Value.array first rest).Within most) ∧
        (Syntax.Value.array first rest).chars = text := by
  rw [IsArray, bracketed_iff (padded_isValue_iff limit), Subtype.exists]
  simp only [Value.Within, Value.chars, Element.allWithin_iff, Element.moreChars_eq, exists_prop]

theorem isObject_iff {limit : Option Nat} {text : List Char} : IsObject limit text ↔
    (∃ inside, (Syntax.Value.emptyObject inside).chars = text) ∨ ∃ first rest,
      (∀ most, limit = some most → (Syntax.Value.object first rest).Within most) ∧
        (Syntax.Value.object first rest).chars = text := by
  rw [IsObject, bracketed_iff (padded_isPair_iff limit), Subtype.exists]
  simp only [Value.Within, Value.chars, Member.allWithin_iff, Member.moreChars_eq, exists_prop]

/-- What numbers may begin with. -/
def numberHeads : List Char := ['-', '0', '1', '2', '3', '4', '5', '6', '7', '8', '9']

/-- The kinds of values, as they are tried. -/
def kinds (limit : Option Nat) : List Kind := [
  ⟨.ref "object", ['\x7b'], IsObject limit⟩,
  ⟨.ref "array", ['['], IsArray limit⟩,
  ⟨.ref "string", ['"'], IsString limit⟩,
  ⟨.ref "number", numberHeads, IsNumber limit⟩,
  ⟨.ref "true", ['t'], (· = (Word.truth true).chars)⟩,
  ⟨.ref "false", ['f'], (· = (Word.truth false).chars)⟩,
  ⟨.ref "null", ['n'], (· = Word.null.chars)⟩]

theorem union_kinds_iff {limit : Option Nat} {text : List Char} :
    Kind.union (kinds limit) text ↔ IsValue limit text := by
  simp only [Kind.union, kinds, List.mem_cons, List.not_mem_nil, or_false, or_and_right,
    exists_or, exists_eq_left, isObject_iff, isArray_iff]
  constructor
  · rintro ((⟨inside, rfl⟩ | ⟨first, rest, within, rfl⟩) |
      (⟨inside, rfl⟩ | ⟨first, rest, within, rfl⟩) | ⟨string, within, rfl⟩ | ⟨number, within, rfl⟩ |
      rfl | rfl | rfl)
    · exact ⟨.emptyObject inside, fun _ _ => trivial, rfl⟩
    · exact ⟨.object first rest, within, rfl⟩
    · exact ⟨.emptyArray inside, fun _ _ => trivial, rfl⟩
    · exact ⟨.array first rest, within, rfl⟩
    · exact ⟨.string string, within, rfl⟩
    · exact ⟨.number number, within, rfl⟩
    · exact ⟨.word (.truth true), fun _ _ => trivial, rfl⟩
    · exact ⟨.word (.truth false), fun _ _ => trivial, rfl⟩
    · exact ⟨.word .null, fun _ _ => trivial, rfl⟩
  · rintro ⟨value, within, rfl⟩
    cases value with
    | emptyObject inside => exact .inl (.inl ⟨inside, rfl⟩)
    | object first rest => exact .inl (.inr ⟨first, rest, within, rfl⟩)
    | emptyArray inside => exact .inr (.inl (.inl ⟨inside, rfl⟩))
    | array first rest => exact .inr (.inl (.inr ⟨first, rest, within, rfl⟩))
    | string string => exact .inr (.inr (.inl ⟨string, within, rfl⟩))
    | number number => exact .inr (.inr (.inr (.inl ⟨number, within, rfl⟩)))
    | word word =>
      cases word with
      | truth value =>
        cases value with
        | true => exact .inr (.inr (.inr (.inr (.inl rfl))))
        | false => exact .inr (.inr (.inr (.inr (.inr (.inl rfl)))))
      | null => exact .inr (.inr (.inr (.inr (.inr (.inr rfl)))))

theorem kinds_apart (limit : Option Nat) : (kinds limit).Pairwise Kind.Apart := by
  have heads : ((kinds limit).map Kind.heads).Pairwise fun one other => ∀ c ∈ other, c ∉ one := by
    change List.Pairwise _ [['\x7b'], ['['], ['"'], numberHeads, ['t'], ['f'], ['n']]
    simp [numberHeads]
  have apart := List.pairwise_map.mp heads
  exact apart

theorem digit_mem_numberHeads {c : Char} (digit : c.isDigit = true) : c ∈ numberHeads := by
  have all : ∀ n < 58, 48 ≤ n → Char.ofNat n ∈ numberHeads := by decide
  have bounds : 48 ≤ c.toNat ∧ c.toNat ≤ 57 := by
    simpa [Char.isDigit, UInt32.le_iff_toNat_le] using digit
  rw [← Char.ofNat_toNat c]
  exact all c.toNat (Nat.lt_succ_of_le bounds.2) bounds.1

theorem IsNumber.begins {limit : Option Nat} {text : List Char} (isNumber : IsNumber limit text) :
    Begins numberHeads text := by
  obtain ⟨⟨negative, whole, fraction, exponent⟩, _, rfl⟩ := isNumber
  cases negative with
  | true => exact ⟨'-', by decide, _, rfl⟩
  | false =>
    cases whole with
    | zero => exact ⟨'0', by decide, _, rfl⟩
    | leading first nonzero rest =>
      exact ⟨first, digit_mem_numberHeads (nonzero_isDigit nonzero), _, rfl⟩

theorem IsString.begins {limit : Option Nat} {text : List Char} (isString : IsString limit text) :
    Begins ['"'] text := by
  obtain ⟨quoted, _, rfl⟩ := isString
  exact ⟨'"', by simp, _, rfl⟩

theorem kinds_begin (limit : Option Nat) : ∀ kind ∈ kinds limit, ∀ text, kind.language text →
    Begins kind.heads text := by
  simp only [kinds, List.forall_mem_cons]
  refine ⟨fun _ => Bracketed.begins, fun _ => Bracketed.begins, fun _ => IsString.begins,
    fun _ => IsNumber.begins, ?_, ?_, ?_, nofun⟩
  · rintro _ rfl
    exact ⟨'t', List.mem_singleton_self _, _, rfl⟩
  · rintro _ rfl
    exact ⟨'f', List.mem_singleton_self _, _, rfl⟩
  · rintro _ rfl
    exact ⟨'n', List.mem_singleton_self _, _, rfl⟩

/-- What values may begin with. -/
def valueHeads : List Char := ['\x7b', '[', '"', 't', 'f', 'n'] ++ numberHeads

theorem IsValue.begins {limit : Option Nat} {text : List Char} (isValue : IsValue limit text) :
    Begins valueHeads text := by
  obtain ⟨kind, among, inKind⟩ := union_kinds_iff.mpr isValue
  obtain ⟨c, head, begun⟩ := kinds_begin limit kind among text inKind
  refine ⟨c, ?_, begun⟩
  have heads : ∀ list ∈ (kinds limit).map Kind.heads, ∀ c ∈ list, c ∈ valueHeads := by
    change ∀ list ∈ [['\x7b'], ['['], ['"'], numberHeads, ['t'], ['f'], ['n']], _
    simp [valueHeads, numberHeads]
  exact heads kind.heads (List.mem_map_of_mem among) c head

theorem IsPair.begins {limit : Option Nat} {text : List Char} (isPair : IsPair limit text) :
    Begins ['"'] text := by
  obtain ⟨name, _, _, _, isString, _, _, _, rfl⟩ := isPair
  obtain ⟨c, head, tail, rfl⟩ := isString.begins
  exact ⟨c, head, _, rfl⟩

theorem blank_not_numeric {c : Char} (blank : isBlank c = true) : isNumeric c = false := by
  simp only [isBlank, Bool.or_eq_true, beq_iff_eq] at blank
  rcases blank with ((rfl | rfl) | rfl) | rfl <;> rfl

/-- Blanks at the end of a text do not go on with a number. -/
theorem blanks_not_numeric {blanks : List Char} (all : ∀ c ∈ blanks, isBlank c = true) :
    Spares isNumeric blanks := by
  have ended := padding_spares all (fun _ => blank_not_numeric) (.nil isNumeric)
  rwa [List.append_nil] at ended

theorem values_delimited (limit : Option Nat) :
    Delimited isBlank isNumeric valueHeads (IsValue limit) ']' where
  begins _ := IsValue.begins
  heads_count := by simp [valueHeads, numberHeads, isBlank]
  ignored_ends _ := blank_not_numeric
  comma_ends := rfl
  comma_counts := rfl
  closing_ends := rfl
  closing_counts := rfl
  closing_ne := by decide
  closing_not_head := by decide

theorem pairs_delimited (limit : Option Nat) :
    Delimited isBlank isNumeric ['"'] (IsPair limit) '\x7d' where
  begins _ := IsPair.begins
  heads_count := by simp [isBlank]
  ignored_ends _ := blank_not_numeric
  comma_ends := rfl
  comma_counts := rfl
  closing_ends := rfl
  closing_counts := rfl
  closing_ne := by decide
  closing_not_head := by decide

/-! ### Rules -/

section Rules

variable {env : Env} (rules : env.rules = grammar.table)
  (ignored : env.skippers = [.rule 13 "WHITESPACE" .silent whiteSpace])

omit rules ignored in
theorem blank_takesOne : (Scan.expr env true whiteSpace).TakesOne env isBlank := by
  refine (choice_literals ' ' ['\t', '\r', '\n']).congr fun c => ?_
  grind [isBlank]

include rules ignored

omit rules in
theorem blanks_recognizes (size : Nat) : Recognizes env size (gap env false)
    (.of (fun text => ∀ c ∈ text, isBlank c = true) (Spares isBlank)) :=
  gap_recognizes (fun input => (blank_takesOne input).rule) ignored size

theorem pair_recognizes {size : Nat}
    (values : Recognizes env size (Scan.expr env false (.ref "value"))
      (.of (IsValue env.repeatLimit) (Spares isNumeric))) :
    Recognizes env size (Scan.expr env false (.ref "pair"))
      (.of (IsPair env.repeatLimit) (Spares isNumeric)) := by
  have pairRule : env.rules.lookup "pair" = some (.rule 4 "pair" .normal pair) := defined rules rfl
  have gaps := blanks_recognizes ignored size
  have colon : Recognizes env size (Scan.expr env false (.literal ":")) _ :=
    mark_recognizes ':' size
  refine ref pairRule (rule ?_)
  refine (seq (string_recognizes rules) (items_cons gaps colon (items_last gaps values))).weaken
    ?_ ?_
  · rintro text ⟨name, _, isString, ⟨after, _, afterBlank, ⟨_, _, rfl,
      ⟨before, value, beforeBlank, isValue, rfl⟩, rfl⟩, rfl⟩, rfl⟩
    exact ⟨name, after, before, value, isString, afterBlank, beforeBlank, isValue, rfl⟩
  · rintro text rest ⟨⟨name, after, before, value, isString, afterBlank, beforeBlank, isValue, rfl⟩,
      spares⟩
    change Intake.must _ (name ++ (after ++ ([':'] ++ (before ++ value)))) rest
    exact must_append ⟨isString, trivial⟩ (must_append ⟨afterBlank, .cons rfl _⟩
      (must_append ⟨rfl, trivial⟩ (must_append
        ⟨beforeBlank, item_spares (values_delimited env.repeatLimit) isValue rest⟩
        ⟨isValue, spares⟩)))

theorem object_recognizes {size : Nat}
    (values : Recognizes env size (Scan.expr env false (.ref "value"))
      (.of (IsValue env.repeatLimit) (Spares isNumeric))) :
    Recognizes env (size + 1) (Scan.expr env false (.ref "object"))
      (.always (IsObject env.repeatLimit)) := by
  have objectRule : env.rules.lookup "object" = some (.rule 2 "object" .normal object) :=
    defined rules rfl
  have membersRule : env.rules.lookup "members" = some (.rule 3 "members" .silent members) :=
    defined rules rfl
  have pairs := pair_recognizes rules ignored values
  exact ref objectRule (rule (bracketed_recognizes (pairs_delimited env.repeatLimit)
    (blanks_recognizes ignored size) pairs '\x7b' membersRule))

theorem array_recognizes {size : Nat}
    (values : Recognizes env size (Scan.expr env false (.ref "value"))
      (.of (IsValue env.repeatLimit) (Spares isNumeric))) :
    Recognizes env (size + 1) (Scan.expr env false (.ref "array"))
      (.always (IsArray env.repeatLimit)) := by
  have arrayRule : env.rules.lookup "array" = some (.rule 5 "array" .normal array) :=
    defined rules rfl
  have elementsRule : env.rules.lookup "elements" = some (.rule 6 "elements" .silent elements) :=
    defined rules rfl
  exact ref arrayRule (rule (bracketed_recognizes (values_delimited env.repeatLimit)
    (blanks_recognizes ignored size) values '[' elementsRule))

omit ignored rules in
theorem word_recognizes {word : String} {tag : Nat}
    (found : env.rules.lookup word = some (.rule tag word .normal (.literal word))) (size : Nat) :
    Recognizes env size (Scan.expr env false (.ref word)) (.always (· = word.toList)) :=
  ref found (rule (literal_recognizes word size))

/-- Each kind is recognized on longer inputs than values are: only arrays and objects contain
values, and they put a bracket in front of them. -/
theorem kinds_recognized {size : Nat}
    (values : Recognizes env size (Scan.expr env false (.ref "value"))
      (.of (IsValue env.repeatLimit) (Spares isNumeric))) :
    ∀ kind ∈ kinds env.repeatLimit, kind.Recognized env (size + 1) false (Spares isNumeric) := by
  have word : ∀ (word : String) (tag : Nat),
      grammar.table.lookup word = some (.rule tag word .normal (.literal word)) →
      Recognizes env (size + 1) (Scan.expr env false (.ref word))
        (.of (· = word.toList) (Spares isNumeric)) :=
    fun word tag found => (word_recognizes (defined rules found) (size + 1)).before _
  have recognized : ∀ kind ∈ kinds env.repeatLimit, Recognizes env (size + 1)
      (Scan.expr env false kind.expr) (.of kind.language (Spares isNumeric)) := by
    simp only [kinds, List.forall_mem_cons]
    refine ⟨?_, ?_, ?_, ?_, ?_, ?_, ?_, nofun⟩
    · exact (object_recognizes rules ignored values).before _
    · exact (array_recognizes rules ignored values).before _
    · exact (string_recognizes rules).before _
    · exact number_recognizes rules
    · exact word "true" 10 rfl
    · exact word "false" 11 rfl
    · exact word "null" 12 rfl
  exact fun kind among => ⟨recognized kind among, kinds_begin env.repeatLimit kind among⟩

/-- Values are recognized on all inputs, by induction on how long they are at most. -/
theorem value_recognizes (size : Nat) : Recognizes env size (Scan.expr env false (.ref "value"))
    (.of (IsValue env.repeatLimit) (Spares isNumeric)) := by
  induction size with
  | zero => exact zero env _ _
  | succ size ih =>
    have valueRule : env.rules.lookup "value" = some (.rule 1 "value" .normal value) :=
      defined rules rfl
    refine ref valueRule (rule ?_)
    refine (Kind.choice_recognizes (kinds_recognized rules ignored ih)
      (kinds_apart env.repeatLimit)).weaken ?_ ?_
    · exact fun text => union_kinds_iff.mp
    · exact fun text rest due => ⟨union_kinds_iff.mpr due.1, due.2⟩

end Rules

end Peg.Json
