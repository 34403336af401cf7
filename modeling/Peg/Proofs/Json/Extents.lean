import Peg.Proofs.Json.Values
import Peg.Proofs.Scan.ListExtents

/-!
# How far JSON texts go on

Without a limit of repetitions, the rules of the grammar explore what they recognize: each one gets
exactly as far into its input as a text of its kind can go on. The parts of a number and the blanks
between tokens end where matching takes them to end, as the next part begins with a character that
does not belong to them.
-/
namespace Peg.Json

open Scan Syntax
open Intake (must_append)

variable {env : Env} {size : Nat}

/-! ### Strings -/

theorem mark_attainsOne : (Scan.expr env true (.choice (.literal "\"") [.literal "\\",
    .literal "/", .literal "b", .literal "f", .literal "n", .literal "r", .literal "t"])).AttainsOne
      env fun c => (shortMeaning? c).isSome :=
  (choice_literals_attainsOne '"' '\\' ['/', 'b', 'f', 'n', 'r', 't']).congr mem_marks

theorem hexDigit_attainsOne : (Scan.expr env true Expr.asciiHexDigit).AttainsOne env
    fun c => (hexValue? c).isSome :=
  (AttainsOne.choice (charRange_takesOne '0' '9') (charRange_attainsOne '0' '9')
    (.alternatives_cons (charRange_takesOne 'a' 'f') (charRange_attainsOne 'a' 'f')
      (.alternatives_last (charRange_takesOne 'A' 'F') (charRange_attainsOne 'A' 'F')))).congr
        in_hex_ranges

theorem exists_mark : ∃ mark, (shortMeaning? mark).isSome = true := ⟨'n', rfl⟩

theorem exists_hexDigit : ∃ digit, (hexValue? digit).isSome = true := ⟨'0', rfl⟩

theorem short_explores : Explores env size (Scan.expr env true (.seq (.literal "\\")
    [.choice (.literal "\"") [.literal "\\", .literal "/", .literal "b", .literal "f",
      .literal "n", .literal "r", .literal "t"]]))
    fun text => ∃ mark, (shortMeaning? mark).isSome = true ∧ ['\\', mark] = text := by
  have row : Explores env size _ _ := .seq (literal_recognizes "\\" size) (.literal "\\" size)
    (.items_atomic_last (mark_takesOne.recognizes size) (.one mark_attainsOne exists_mark size))
    (.joined_always (exists_single exists_mark))
  exact row.congr fun text => by simp [Joined, Intake.always, Intake.of]

theorem unit_explores : Explores env size (Scan.expr env true (.seq (.literal "\\u")
    [Expr.asciiHexDigit, Expr.asciiHexDigit, Expr.asciiHexDigit, Expr.asciiHexDigit]))
    fun text => ∃ a b c d, (∀ digit ∈ [a, b, c, d], (hexValue? digit).isSome = true) ∧
      ['\\', 'u', a, b, c, d] = text := by
  have takes : Recognizes env size _ _ := hexDigit_takesOne.recognizes size
  have digit : Explores env size _ _ := .one hexDigit_attainsOne exists_hexDigit size
  have one := exists_single exists_hexDigit
  have two := exists_joined one one
  have three := exists_joined one two
  have row : Explores env size _ _ := .seq (literal_recognizes "\\u" size) (.literal "\\u" size)
    (.items_atomic takes digit (.items_atomic takes digit (.items_atomic takes digit
      (.items_atomic_last takes digit) (.joined_always one)) (.joined_always two))
        (.joined_always three)) (.joined_always (exists_joined one three))
  refine row.congr fun text => ⟨?_, ?_⟩
  · rintro ⟨_, _, rfl, ⟨_, _, ⟨a, hexA, rfl⟩, ⟨_, _, ⟨b, hexB, rfl⟩, ⟨_, _, ⟨c, hexC, rfl⟩,
      ⟨d, hexD, rfl⟩, rfl⟩, rfl⟩, rfl⟩, rfl⟩
    exact ⟨a, b, c, d, by simp [hexA, hexB, hexC, hexD], rfl⟩
  · rintro ⟨a, b, c, d, digits, rfl⟩
    simp only [List.forall_mem_cons] at digits
    obtain ⟨hexA, hexB, hexC, hexD, _⟩ := digits
    exact ⟨_, _, rfl, ⟨_, _, ⟨a, hexA, rfl⟩, ⟨_, _, ⟨b, hexB, rfl⟩, ⟨_, _, ⟨c, hexC, rfl⟩,
      ⟨d, hexD, rfl⟩, rfl⟩, rfl⟩, rfl⟩, rfl⟩

theorem plain_explores : Explores env size (Scan.expr env true
    (.seq (.negative (.choice (.literal "\"") [.literal "\\", Expr.charRange '\x00' '\x1f']))
      [.terminal .any]))
    fun text => ∃ c, (' ' ≤ c ∧ c ≠ '"' ∧ c ≠ '\\') ∧ [c] = text := by
  have attains : AttainsOne env _ isPlain :=
    (AttainsOne.except rfl special_takesOne).congr fun c => Bool.not_not (isPlain c)
  exact (Explores.one attains ⟨'a', rfl⟩ size).congr fun text => by simp [isPlain, and_assoc]

/-- Behind a short escape nothing else goes on. -/
theorem short_outruns : (Intake.always fun text => ∃ mark, (shortMeaning? mark).isSome = true ∧
    ['\\', mark] = text).Outruns fun text =>
      (∃ a b c d, (∀ digit ∈ [a, b, c, d], (hexValue? digit).isSome = true) ∧
        ['\\', 'u', a, b, c, d] = text) ∨ ∃ c, (' ' ≤ c ∧ c ≠ '"' ∧ c ≠ '\\') ∧ [c] = text := by
  rintro _ rest n ⟨mark, known, rfl⟩ le ⟨more, goesOn⟩
  by_contra longer
  obtain ⟨n, rfl⟩ := Nat.exists_eq_add_of_le' (Nat.lt_of_not_le longer)
  change (∃ a b c d, _ ∧ _ = '\\' :: mark :: _) ∨ ∃ c, _ ∧ [c] = '\\' :: mark :: _ at goesOn
  rcases goesOn with ⟨a, b, c, d, _, same⟩ | ⟨c, _, same⟩
  · -- The letter of a code unit would be a mark.
    cases (List.cons.inj (List.cons.inj same).2).1
    cases known
  · cases same

theorem char_explores : Explores env size (Scan.expr env true char) IsPiece := by
  refine (Explores.choice short_recognizes short_explores (.alternatives_cons unit_recognizes
    unit_explores (.alternatives_last plain_recognizes plain_explores)
      (Intake.outruns_of_short ?_ ?_)) short_outruns).congr fun text => isPiece_iff.symm
  · rintro _ ⟨_, _, _, _, _, rfl⟩
    exact List.cons_ne_nil _ _
  · rintro _ ⟨c, _, rfl⟩
    exact Nat.le_refl 1

/-! ### Numbers -/

theorem digit_attainsOne : (Scan.expr env true Expr.asciiDigit).AttainsOne env Char.isDigit :=
  (charRange_attainsOne '0' '9').congr fun _ => rfl

theorem nonzero_attainsOne :
    (Scan.expr env true Expr.asciiNonzeroDigit).AttainsOne env fun c => '1' ≤ c && c ≤ '9' :=
  charRange_attainsOne '1' '9'

theorem mark_of_exponent_attainsOne :
    (Scan.expr env true (.terminal (.insensitive "e"))).AttainsOne env isExponentMark :=
  (insensitive_attainsOne rfl).congr lowers_to_e

theorem exists_nonzero : ∃ c : Char, ('1' ≤ c && c ≤ '9') = true := ⟨'1', rfl⟩

theorem exists_exponentMark : ∃ c, isExponentMark c = true := ⟨'e', rfl⟩

theorem exists_isSign : ∃ text, IsSign text := ⟨_, none, nofun, rfl⟩

theorem sign_explores : Explores env size
    (Scan.expr env true (.opt (.choice (.literal "+") [.literal "-"]))) IsSign :=
  (Explores.opt ((choice_literals '+' ['-']).recognizes size)
    (.one (choice_literals_attainsOne '+' '-' []) ⟨'+', rfl⟩ size)).congr
      fun _ => isSign_iff.symm

theorem minus_explores : Explores env size (Scan.expr env true (.opt (.literal "-")))
    fun text => ∃ negative, signChars negative = text :=
  (Explores.opt (literal_recognizes "-" size) (.literal "-" size)).congr
    fun _ => isMinus_iff.symm

section Unlimited

variable (unlimited : env.repeatLimit = none)

include unlimited

theorem allows_all (count : Nat) : Intake.Allows env.repeatLimit count := by
  intro most limited
  cases unlimited.symm.trans limited

theorem exists_isDigits (min : Nat) : ∃ text, IsDigits min env.repeatLimit text := by
  refine ⟨List.replicate min '0', fun c among => ?_, ?_, allows_all unlimited _⟩
  · rw [List.eq_of_mem_replicate among]
    rfl
  · rw [List.length_replicate]

theorem digits_explores (min : Nat) :
    Explores env size (Scan.expr env true (.rep Expr.asciiDigit min none))
      (IsDigits min env.repeatLimit) := by
  refine (Explores.digits unlimited digit_takesOne digit_attainsOne ⟨'0', rfl⟩ size min).congr
    fun text => ?_
  simp [IsDigits, allows_all unlimited]

theorem whole_explores : Explores env size
    (Scan.expr env true
      (.choice (.literal "0") [.seq Expr.asciiNonzeroDigit [many Expr.asciiDigit]]))
    (IsWhole env.repeatLimit) := by
  have leading : Explores env size _ _ := .seq (nonzero_takesOne.recognizes size)
    (.one nonzero_attainsOne exists_nonzero size)
    (.items_atomic_last (digits_recognizes 0) (digits_explores unlimited 0))
    (.joined_always (exists_isDigits unlimited 0))
  have begins : ∀ text, text = "0".toList → Begins ['0'] text := by
    rintro _ rfl
    exact ⟨'0', List.mem_singleton_self '0', [], rfl⟩
  refine (Explores.choice (literal_recognizes "0" size) (.literal "0" size)
    (.alternatives_last leading_recognizes leading) (outruns_of_begins begins ?_)).congr
      fun text => ?_
  · -- A number that begins with a zero does not go on with digits.
    rintro c _ ⟨_, _, ⟨d, nonzero, rfl⟩, _, same⟩ zero
    obtain rfl : d = c := (List.cons.inj same).1
    cases List.mem_singleton.mp zero
    cases nonzero
  · rw [isWhole_iff]
    refine or_congr Iff.rfl ⟨?_, ?_⟩
    · rintro ⟨_, rest, ⟨c, nonzero, rfl⟩, digits, rfl⟩
      exact ⟨c, rest, by simpa using nonzero, digits, rfl⟩
    · rintro ⟨c, rest, nonzero, digits, rfl⟩
      exact ⟨[c], rest, ⟨c, by simpa using nonzero, rfl⟩, digits, rfl⟩

theorem fraction_explores : Explores env size
    (Scan.expr env true (.opt (.seq (.literal ".") [Expr.repOnce Expr.asciiDigit])))
    (IsFraction env.repeatLimit) := by
  have takes : Recognizes env size _ _ :=
    .seq (literal_recognizes "." size) (.items_atomic_last (digits_recognizes 1))
  have part : Explores env size _ _ := .seq (literal_recognizes "." size) (.literal "." size)
    (.items_atomic_last (digits_recognizes 1) (digits_explores unlimited 1))
    (.joined_always (exists_isDigits unlimited 1))
  refine (Explores.opt takes part).congr fun text => ?_
  rw [isFraction_iff]
  refine or_congr ⟨?_, ?_⟩ Iff.rfl
  · rintro ⟨_, rest, rfl, digits, rfl⟩
    exact ⟨rest, digits, rfl⟩
  · rintro ⟨rest, digits, rfl⟩
    exact ⟨['.'], rest, rfl, digits, rfl⟩

omit unlimited in
theorem isDigits_head {limit : Option Nat} {min : Nat} {c : Char} {tail : List Char}
    (digits : IsDigits min limit (c :: tail)) : c.isDigit = true :=
  digits.1 c List.mem_cons_self

theorem exponent_explores : Explores env size
    (Scan.expr env true (.opt (.seq (.terminal (.insensitive "e"))
      [.opt (.choice (.literal "+") [.literal "-"]), Expr.repOnce Expr.asciiDigit])))
    (IsExponent env.repeatLimit) := by
  have some := exists_isDigits unlimited 1
  have marks : Recognizes env size _ _ := mark_of_exponent_takesOne.recognizes size
  have takes : Recognizes env size _ _ := .seq marks (.items_atomic sign_recognizes
    (.items_atomic_last (digits_recognizes 1)))
  have part : Explores env size _ _ := .seq marks
    (.one mark_of_exponent_attainsOne exists_exponentMark size)
    (.items_atomic sign_recognizes sign_explores
      (.items_atomic_last (digits_recognizes 1) (digits_explores unlimited 1))
      (.joined_of some fun c tail digits => digit_ne_sign (isDigits_head digits)))
    (.joined_always (exists_joined exists_isSign some))
  refine (Explores.opt takes part).congr fun text => ?_
  rw [isExponent_iff]
  refine or_congr ⟨?_, ?_⟩ Iff.rfl
  · rintro ⟨_, _, ⟨mark, isMark, rfl⟩, ⟨sign, rest, isSign, digits, rfl⟩, rfl⟩
    exact ⟨mark, sign, rest, isMark, isSign, digits, rfl⟩
  · rintro ⟨mark, sign, rest, isMark, isSign, digits, rfl⟩
    exact ⟨[mark], _, ⟨mark, isMark, rfl⟩, ⟨sign, rest, isSign, digits, rfl⟩, rfl⟩

omit unlimited in
theorem exists_isExponent (limit : Option Nat) : ∃ text, IsExponent limit text :=
  ⟨[], isExponent_iff.mpr (.inr rfl)⟩

omit unlimited in
/-- A fraction begins with a dot, and an exponent in its place with a mark. -/
theorem after_whole_spares {limit : Option Nat} {text : List Char}
    (joined : Joined (IsFraction limit) (IsExponent limit) text) : Spares Char.isDigit text := by
  obtain ⟨fraction, exponent, isFraction, isExponent, rfl⟩ := joined
  have ended := exponent_spares (fun _ => mark_not_digit) isExponent (.nil _)
  rw [List.append_nil] at ended
  exact fraction_spares rfl isFraction ended

/-- Each part of a number begins with a character that the one before it does not go on with. -/
theorem parts_explores : Explores env size (Scan.expr env true number)
    (IsNumber env.repeatLimit) := by
  have someExponent := exists_isExponent env.repeatLimit
  have someFraction : ∃ text, IsFraction env.repeatLimit text := ⟨[], isFraction_iff.mpr (.inr rfl)⟩
  have someWhole : ∃ text, IsWhole env.repeatLimit text := ⟨_, isWhole_iff.mpr (.inl rfl)⟩
  have late := exists_joined someFraction someExponent
  -- What stands after a part shows by its first character that the part has come to its end.
  have afterFraction : ∀ c tail, IsExponent env.repeatLimit (c :: tail) →
      (c.isDigit || c == '.') = false := fun c tail isExponent =>
    exponent_spares (fun _ => mark_ne_dot) isExponent (.nil _) c tail (List.append_nil _)
  have afterMinus : ∀ c tail, Joined (IsWhole env.repeatLimit)
      (Joined (IsFraction env.repeatLimit) (IsExponent env.repeatLimit)) (c :: tail) →
      (c == '-') = false := by
    rintro c tail ⟨whole, rest, isWhole, _, same⟩
    exact whole_spares (fun _ => digit_ne_minus) isWhole rest c tail same
  refine (Explores.seq minus_recognizes minus_explores
    (.items_atomic whole_recognizes (whole_explores unlimited)
      (.items_atomic fraction_recognizes (fraction_explores unlimited)
        (.items_atomic_last exponent_recognizes (exponent_explores unlimited))
        (.joined_of someExponent afterFraction))
      (.joined_of late fun c tail joined => after_whole_spares joined c tail rfl))
    (.joined_of (exists_joined someWhole late) afterMinus)).congr fun text => ?_
  rw [isNumber_iff]
  constructor
  · rintro ⟨sign, _, isSign, ⟨whole, _, isWhole, ⟨fraction, exponent, isFraction, isExponent, rfl⟩,
      rfl⟩, rfl⟩
    exact ⟨sign, whole, fraction, exponent, isSign, isWhole, isFraction, isExponent, rfl⟩
  · rintro ⟨sign, whole, fraction, exponent, isSign, isWhole, isFraction, isExponent, rfl⟩
    exact ⟨sign, _, isSign, ⟨whole, _, isWhole, ⟨fraction, exponent, isFraction, isExponent, rfl⟩,
      rfl⟩, rfl⟩

/-! ### Rules -/

variable (rules : env.rules = grammar.table)

include rules

/-- Where a piece ends does not depend on what comes after it. -/
theorem chars_explores : Explores env size (Scan.expr env true (many (.ref "char")))
    (IsPieces env.repeatLimit) := by
  have charRule : env.rules.lookup "char" = some (.rule 8 "char" .silent char) :=
    defined rules rfl
  have row : (Intake.always IsPiece).Rounds (.always (· = []))
      fun _ => IsPieces env.repeatLimit := by
    refine .of_atomic fun _ => .of_always ⟨_, [], nofun, allows_all unlimited _, rfl⟩ ?_ ?_
    · rintro _ _ ⟨piece, good, rfl⟩ ⟨pieces, valid, _, rfl⟩
      exact ⟨piece :: pieces, List.forall_mem_cons.mpr ⟨good, valid⟩, allows_all unlimited _, rfl⟩
    · rintro _ ⟨pieces, valid, _, rfl⟩ some
      cases pieces with
      | nil => exact absurd rfl some
      | cons piece pieces =>
        obtain ⟨good, others⟩ := List.forall_mem_cons.mp valid
        exact ⟨_, _, ⟨piece, good, rfl⟩, ⟨pieces, others, allows_all unlimited _, rfl⟩, rfl⟩
  exact .rep unlimited (fun _ => IsPiece.ne_nil) (.ref charRule (.rule char_recognizes))
    (.ref charRule (.rule char_explores)) .gap_atomic .gap_atomic row

theorem string_explores {atomic : Bool} : Explores env size (Scan.expr env atomic (.ref "string"))
    (IsString env.repeatLimit) := by
  have stringRule : env.rules.lookup "string" = some (.rule 7 "string" .atomic string) :=
    defined rules rfl
  have quotes : Recognizes env size (Scan.expr env true (.literal "\"")) _ :=
    literal_recognizes "\"" size
  have some : ∃ text, IsPieces env.repeatLimit text := ⟨_, [], nofun, allows_all unlimited _, rfl⟩
  have closes : (Intake.of (IsPieces env.repeatLimit) fun rest => ∃ tail, '"' :: tail = rest).Leads
      (· = "\"".toList) _ := .joined ⟨_, rfl⟩ ?_
  have row : Explores env size (Scan.expr env true string) _ := .seq quotes (.literal "\"" size)
    (.items_atomic (chars_recognizes rules) (chars_explores unlimited rules)
      (.items_atomic_last quotes (.literal "\"" size)) closes)
    (.joined_always (exists_joined some ⟨_, rfl⟩))
  · refine .ref stringRule (.rule (row.congr fun text => ?_))
    rw [isString_iff]
    constructor
    · rintro ⟨_, _, rfl, ⟨inside, _, pieces, rfl, rfl⟩, rfl⟩
      exact ⟨inside, pieces, rfl⟩
    · rintro ⟨inside, pieces, rfl⟩
      exact ⟨['"'], _, rfl, ⟨inside, _, pieces, rfl, rfl⟩, rfl⟩
  · -- No piece begins with the closing quote, whatever comes after it.
    rintro early c tail pieces same rest
    obtain rfl : c = '"' := singleton_head same
    exact ⟨pieces, rest, rfl⟩

theorem number_explores {atomic : Bool} : Explores env size (Scan.expr env atomic (.ref "number"))
    (IsNumber env.repeatLimit) := by
  have numberRule : env.rules.lookup "number" = some (.rule 9 "number" .atomic number) :=
    defined rules rfl
  exact .ref numberRule (.rule (parts_explores unlimited))

/-! ### Values -/

omit unlimited rules in
theorem exists_isValue (limit : Option Nat) : ∃ text, IsValue limit text :=
  ⟨_, .word .null, fun _ _ => trivial, rfl⟩

variable (ignored : env.skippers = [.rule 13 "WHITESPACE" .silent whiteSpace])

include ignored

omit unlimited rules in
theorem blanks_explores (size : Nat) : Explores env size (gap env false)
    fun text => ∀ c ∈ text, isBlank c = true :=
  .gap (fun input => (blank_takesOne input).rule) ignored size

section Nested

variable (values : Recognizes env size (Scan.expr env false (.ref "value"))
    (.of (IsValue env.repeatLimit) (Spares isNumeric)))
  (explored : Explores env size (Scan.expr env false (.ref "value")) (IsValue env.repeatLimit))

include values explored

theorem pair_explores : Explores env size (Scan.expr env false (.ref "pair"))
    (IsPair env.repeatLimit) := by
  have pairRule : env.rules.lookup "pair" = some (.rule 4 "pair" .normal pair) := defined rules rfl
  have gaps := blanks_recognizes ignored size
  have skipped := blanks_explores ignored size
  have some := exists_isValue env.repeatLimit
  have toValue := gap_leads_item (values_delimited env.repeatLimit) some
  have blank : ∃ text : List Char, ∀ c ∈ text, isBlank c = true := ⟨[], nofun⟩
  have value := exists_joined blank some
  have mark : ∃ text, text = [':'] := ⟨_, rfl⟩
  have colon := exists_joined mark value
  have row : Explores env size (Scan.expr env false pair) _ := .seq (string_recognizes rules)
    (string_explores unlimited rules)
    (.items_cons gaps skipped (mark_recognizes ':' size) (.mark ':' size)
      (.items_last gaps skipped values explored toValue) (.joined_always value)
      (.joined_of colon ?_))
    (.joined_always (exists_joined blank colon))
  · refine .ref pairRule (.rule (row.congr fun text => ⟨?_, ?_⟩))
    · rintro ⟨name, _, isString, ⟨after, _, afterBlank, ⟨_, _, rfl,
        ⟨before, value, beforeBlank, isValue, rfl⟩, rfl⟩, rfl⟩, rfl⟩
      exact ⟨name, after, before, value, isString, afterBlank, beforeBlank, isValue, rfl⟩
    · rintro ⟨name, after, before, value, isString, afterBlank, beforeBlank, isValue, rfl⟩
      exact ⟨name, _, isString, ⟨after, _, afterBlank, ⟨[':'], _, rfl,
        ⟨before, value, beforeBlank, isValue, rfl⟩, rfl⟩, rfl⟩, rfl⟩
  · rintro c _ ⟨_, _, rfl, _, same⟩
    obtain rfl : ':' = c := (List.cons.inj same).1
    rfl

theorem object_explores : Explores env (size + 1) (Scan.expr env false (.ref "object"))
    (IsObject env.repeatLimit) := by
  have objectRule : env.rules.lookup "object" = some (.rule 2 "object" .normal object) :=
    defined rules rfl
  have membersRule : env.rules.lookup "members" = some (.rule 3 "members" .silent members) :=
    defined rules rfl
  have takes := pair_recognizes rules ignored values
  have pairs := pair_explores unlimited rules ignored values explored
  -- After a comma the text can go on, as there is a pair at all.
  have some : ∃ text, IsPair env.repeatLimit text := by
    obtain ⟨text, isValue⟩ := exists_isValue env.repeatLimit
    exact ⟨_, _, [], [], text, isString_iff.mpr ⟨[], ⟨[], nofun, allows_all unlimited _, rfl⟩, rfl⟩,
      nofun, nofun, isValue, rfl⟩
  rw [unlimited] at pairs some ⊢
  exact .ref objectRule (.rule (bracketed_explores unlimited (pairs_delimited none) some
    (blanks_recognizes ignored size) (blanks_explores ignored size) (unlimited ▸ takes) pairs
    '\x7b' membersRule))

theorem array_explores : Explores env (size + 1) (Scan.expr env false (.ref "array"))
    (IsArray env.repeatLimit) := by
  have arrayRule : env.rules.lookup "array" = some (.rule 5 "array" .normal array) :=
    defined rules rfl
  have elementsRule : env.rules.lookup "elements" = some (.rule 6 "elements" .silent elements) :=
    defined rules rfl
  rw [unlimited] at values explored ⊢
  exact .ref arrayRule (.rule (bracketed_explores unlimited (values_delimited none)
    (exists_isValue none) (blanks_recognizes ignored size) (blanks_explores ignored size) values
    explored '[' elementsRule))

omit unlimited rules ignored values explored in
theorem word_explores {word : String} {tag : Nat}
    (found : env.rules.lookup word = some (.rule tag word .normal (.literal word))) (size : Nat) :
    Explores env size (Scan.expr env false (.ref word)) (· = word.toList) :=
  .ref found (.rule (.literal word size))

theorem kinds_explored : ∀ kind ∈ kinds env.repeatLimit,
    Explores env (size + 1) (Scan.expr env false kind.expr) kind.language := by
  have word : ∀ (word : String) (tag : Nat),
      grammar.table.lookup word = some (.rule tag word .normal (.literal word)) →
      Explores env (size + 1) (Scan.expr env false (.ref word)) (· = word.toList) :=
    fun word tag found => word_explores (defined rules found) (size + 1)
  simp only [kinds, List.forall_mem_cons]
  refine ⟨?_, ?_, ?_, ?_, ?_, ?_, ?_, List.forall_mem_nil _⟩
  · exact object_explores unlimited rules ignored values explored
  · exact array_explores unlimited rules ignored values explored
  · exact string_explores unlimited rules
  · exact number_explores unlimited rules
  · exact word "true" 10 rfl
  · exact word "false" 11 rfl
  · exact word "null" 12 rfl

end Nested

/-- Values are explored on all inputs, by induction on how long they are at most. -/
theorem value_explores (size : Nat) : Explores env size (Scan.expr env false (.ref "value"))
    (IsValue env.repeatLimit) := by
  induction size with
  | zero => exact .zero env _ _
  | succ size ih =>
    have valueRule : env.rules.lookup "value" = some (.rule 1 "value" .normal value) :=
      defined rules rfl
    have values := value_recognizes rules ignored size
    -- The values inside arrays and objects are shorter than these by a bracket.
    refine .ref valueRule (.rule ?_)
    exact (Kind.choice_explores (kinds_explored unlimited rules ignored values ih)
      (kinds_recognized rules ignored values) (kinds_apart env.repeatLimit)).congr
        fun text => union_kinds_iff

end Unlimited

end Peg.Json
