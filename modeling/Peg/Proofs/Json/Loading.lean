import Peg.Proofs.Json.Acceptance
import Peg.Proofs.Json.Meaning
import Peg.Proofs.Scan.Collections

/-!
# Loading JSON texts

The tree that the grammar yields from a JSON text has the value that the text stands for. The proof
goes by recursion on the text: a value is yielded by the alternative of its kind, and from an array
or an object its elements or members are collected, of which the same is known.

How much room it takes to read a value of the tree is known on the way. The tree itself does not
depend on the room.

## Main result

What is loaded from a rendering of a value is the value, if there is room for it; and if there is
not, the rendering is refused for that reason.
-/
namespace Peg.Json

open Scan Syntax

/-! ### Items -/

/-- An element as an item of an array. -/
def Syntax.Element.slot : Element → Slot
  | .mk before value after =>
    ⟨before.val, value.chars, after.val, HasValue value.depth value.meaning⟩

/-- A member as an item of an object. -/
def Syntax.Member.slot : Member → Slot
  | .mk before name after (.mk next value last) =>
    ⟨before.val, name.chars ++ (after.val ++ ':' :: (next.val ++ value.chars)), last.val,
      HasEntry value.depth (name.points, value.meaning)⟩

theorem Syntax.Element.slot_chars (element : Element) : element.slot.chars = element.chars := by
  cases element
  rfl

theorem Syntax.Element.slot_good (element : Element) :
    element.slot.good = HasValue element.reading.1 element.reading.2 := by
  cases element
  rfl

theorem Syntax.Member.slot_chars (member : Member) : member.slot.chars = member.chars := by
  obtain ⟨before, name, after, next, value, last⟩ := member
  simp [slot, Slot.chars, Member.chars, Element.chars]

theorem Syntax.Member.slot_good (member : Member) :
    member.slot.good = HasEntry member.reading.1 member.reading.2 := by
  obtain ⟨before, name, after, next, value, last⟩ := member
  rfl

theorem Syntax.Element.moreChars_slots (elements : List Element) :
    afterCommas ((elements.map slot).map Slot.chars) = moreChars elements := by
  simp [moreChars_eq, afterCommas, Function.comp_def, slot_chars]

theorem Syntax.Element.goods_slots (elements : List Element) :
    (elements.map slot).map Slot.good =
      (elements.map reading).map fun result => HasValue result.1 result.2 := by
  simp [Function.comp_def, slot_good]

theorem Syntax.Member.moreChars_slots (members : List Member) :
    afterCommas ((members.map slot).map Slot.chars) = moreChars members := by
  simp [moreChars_eq, afterCommas, Function.comp_def, slot_chars]

theorem Syntax.Member.goods_slots (members : List Member) :
    (members.map slot).map Slot.good =
      (members.map reading).map fun result => HasEntry result.1 result.2 := by
  simp [Function.comp_def, slot_good]

/-- The node is the match of a value, and this is the value. -/
def Decodes (need : Nat) (value : Value) (node : Node) : Prop :=
  (∃ span child, node = .rule "value" span child) ∧ HasValue need value node

/-- A value is collected where the matches of values are. -/
theorem value_collects {env : Env} {names : List String} (listed : "value" ∈ names)
    {text rest : List Char} {need : Nat} {value : Value}
    (yields : Yields env false (.ref "value") text rest (Decodes need value)) :
    Collects names env false (.ref "value") text rest [HasValue need value] := by
  refine yields.mono ?_
  rintro _ ⟨⟨span, child, rfl⟩, decoded⟩
  exact .root (List.contains_iff_mem.mpr listed) decoded

/-- What the content of a rule bears are the nearest matches below the node of the rule. -/
theorem rulesWithin_of_bears {names : List String} {goods : List (Node → Prop)} {inner : Node}
    (bears : Bears names goods [inner]) (name : String) (span : Span) :
    List.Forall₂ (fun good node => good node) goods
      ((Node.rule name span (some inner)).rulesWithin names) := by
  rw [Node.rulesWithin_eq]
  exact bears

/-- The nearest matches, if each has a result of its own. -/
theorem forall₂_of_bears {names : List String} {inner : Node} {α : Type} {has : α → Node → Prop}
    {results : List α} (bears : Bears names (results.map has) [inner]) (name : String)
    (span : Span) : List.Forall₂ (fun node result => has result node)
      ((Node.rule name span (some inner)).rulesWithin names) results :=
  (List.forall₂_map_left_iff.mp (rulesWithin_of_bears bears name span)).flip

section Rules

variable {env : Env} (rules : env.rules = grammar.table)
  (ignored : env.skippers = [.rule 13 "WHITESPACE" .silent whiteSpace])

include rules

/-! ### Strings, numbers and constants -/

theorem string_yields {quoted : Quoted}
    (within : ∀ most, env.repeatLimit = some most → quoted.Within most) (rest : List Char) :
    Yields env false (.ref "string") quoted.chars rest fun node =>
      (∃ span child, node = .rule "string" span child) ∧
        decodeString node = .ok quoted.points := by
  have takes : (Scan.expr env false (.ref "string")).Takes env (quoted.chars ++ rest) _ :=
    Recognizes.takes (fun _ => string_recognizes rules) ⟨⟨quoted, within, rfl⟩, trivial⟩
  refine (takes.yieldsRule (defined rules rfl) nofun).mono ?_
  rintro node ⟨isRule, text⟩
  refine ⟨isRule, ?_⟩
  rw [decodeString, text, unescape_chars]
  rfl

theorem number_yields {number : Number}
    (within : ∀ most, env.repeatLimit = some most → number.Within most) {rest : List Char}
    (ends : Spares isNumeric rest) :
    Yields env false (.ref "number") number.chars rest
      (HasValue 1 (numberValue (String.ofList number.chars))) := by
  have takes : (Scan.expr env false (.ref "number")).Takes env (number.chars ++ rest) _ :=
    Recognizes.takes (fun _ => number_recognizes rules) ⟨⟨number, within, rfl⟩, ends⟩
  refine (takes.yieldsRule (defined rules rfl) nofun).mono ?_
  rintro _ ⟨⟨span, child, rfl⟩, text⟩
  exact text ▸ HasValue.number

theorem word_yields {word : String} {tag : Nat} {value : Value}
    (found : grammar.table.lookup word = some (.rule tag word .normal (.literal word)))
    (decoded : ∀ {span child}, HasValue 1 value (.rule word span child)) (rest : List Char) :
    Yields env false (.ref word) word.toList rest (HasValue 1 value) := by
  have takes : (Scan.expr env false (.ref word)).Takes env (word.toList ++ rest) _ :=
    Recognizes.takes (word_recognizes (defined rules found)) ⟨rfl, trivial⟩
  refine (takes.yieldsRule (defined rules found) nofun).mono ?_
  rintro _ ⟨⟨span, child, rfl⟩, _⟩
  exact decoded

/-! ### Arrays and objects -/

theorem array_yields {text rest : List Char} {results : List (Nat × Value)}
    (collects : Collects ["value"] env false array text rest
      (results.map fun result => HasValue result.1 result.2)) :
    Yields env false (.ref "array") text rest
      (HasValue ((results.map Prod.fst).foldr max 0 + 2) (.array (results.map Prod.snd))) := by
  have arrayRule : env.rules.lookup "array" = some (.rule 5 "array" .normal array) :=
    defined rules rfl
  refine (Yields.ref arrayRule (Yields.rule collects)).mono ?_
  rintro _ ⟨span, inner, rfl, bears⟩
  exact .array (forall₂_of_bears bears "array" span)

theorem object_yields {text rest : List Char} {results : List (Nat × List Nat × Value)}
    (collects : Collects ["pair"] env false object text rest
      (results.map fun result => HasEntry result.1 result.2)) :
    Yields env false (.ref "object") text rest
      (HasValue ((results.map Prod.fst).foldr max 0 + 2)
        (.object (setMembers (results.map Prod.snd)))) := by
  have objectRule : env.rules.lookup "object" = some (.rule 2 "object" .normal object) :=
    defined rules rfl
  refine (Yields.ref objectRule (Yields.rule collects)).mono ?_
  rintro _ ⟨span, inner, rfl, bears⟩
  exact .object (forall₂_of_bears bears "object" span)

include ignored

theorem pair_collects {name : Quoted} {need : Nat} {value : Value}
    (short : ∀ most, env.repeatLimit = some most → name.Within most)
    {after before text rest : List Char} (back : ∀ c ∈ after, isBlank c = true)
    (front : ∀ c ∈ before, isBlank c = true) (isValue : IsValue env.repeatLimit text)
    (yields : Yields env false (.ref "value") text rest (Decodes need value)) :
    Collects ["pair"] env false (.ref "pair")
      (name.chars ++ (after ++ ':' :: (before ++ text))) rest
      [HasEntry need (name.points, value)] := by
  have key : Collects ["string", "value"] env false (.ref "string") name.chars
      ((after ++ ([':'] ++ (before ++ text))) ++ rest)
      [fun node => decodeString node = .ok name.points] := by
    refine (string_yields rules short _).mono ?_
    rintro _ ⟨⟨span, child, rfl⟩, decoded⟩
    exact .root rfl decoded
  have listed : "value" ∈ ["string", "value"] := by simp
  have gaps := blanks_recognizes ignored
  have items : ItemsCollect ["string", "value"] env false [.literal ":", .ref "value"]
      (after ++ ([':'] ++ (before ++ text))) rest
      ([] ++ [HasValue need value]) :=
    .cons (Recognizes.takes gaps ⟨back, .cons rfl _⟩) (mark_collects ':' _)
      (.last (Recognizes.takes gaps
        ⟨front, item_spares (values_delimited env.repeatLimit) isValue rest⟩)
        (value_collects listed yields))
  have pairRule : env.rules.lookup "pair" = some (.rule 4 "pair" .normal pair) := defined rules rfl
  refine (Yields.ref pairRule (Yields.rule (key.seq items))).mono ?_
  rintro _ ⟨span, inner, rfl, bears⟩
  refine .root rfl ?_
  -- Nearest below the pair are its name and its value, and nothing else.
  have nearest := rulesWithin_of_bears bears "pair" span
  obtain ⟨first, _, isName, others, found⟩ := List.forall₂_cons_left_iff.mp nearest
  obtain ⟨second, _, isValue, ⟨⟩, rfl⟩ := List.forall₂_cons_left_iff.mp others
  refine HasEntry.pair found ?_ isValue
  exact isName

/-! ### Values -/

/-- Where a text of one kind begins, no kind matches that begins with other characters. -/
theorem kind_misses {kind other : Kind} (among : kind ∈ kinds env.repeatLimit)
    (isKind : other ∈ kinds env.repeatLimit) (apart : other.Apart kind) {text : List Char}
    (inKind : kind.language text) (rest : List Char) :
    (Scan.expr env false other.expr).Takes env (text ++ rest) none := by
  obtain ⟨c, head, tail, rfl⟩ := kinds_begin env.repeatLimit kind among text inKind
  have recognizes : ∀ size, Recognizes env size (Scan.expr env false other.expr)
      (.of other.language (Spares isNumeric)) := by
    intro size
    have larger := kinds_recognized rules ignored (value_recognizes rules ignored size) other isKind
    exact larger.recognizes.smaller (Nat.le_succ size)
  exact Recognizes.misses recognizes
    (Begins.absent (kinds_begin env.repeatLimit other isKind) rfl (apart c head))

/-- A value is matched by the alternative of its kind. -/
theorem value_of_kind {kind : Kind} (among : kind ∈ kinds env.repeatLimit)
    {text rest : List Char} (inKind : kind.language text) {need : Nat} {value : Json.Value}
    (yields : Yields env false kind.expr text rest (HasValue need value)) :
    Yields env false (.ref "value") text rest (Decodes (need + 2) value) := by
  obtain ⟨front, back, split⟩ := List.append_of_mem among
  have valueRule : env.rules.lookup "value" = some (.rule 1 "value" .normal Json.value) :=
    defined rules rfl
  have exprs : front.map Kind.expr ++ kind.expr :: back.map Kind.expr =
      (kinds env.repeatLimit).map Kind.expr := by
    rw [split, List.map_append, List.map_cons]
  -- The kinds in front do not match, since they begin with other characters.
  have missed : ∀ other ∈ front.map Kind.expr,
      (Scan.expr env false other).Takes env (text ++ rest) none := by
    have pairwise := kinds_apart env.repeatLimit
    rw [split] at pairwise
    have apart := (List.pairwise_append.mp pairwise).2.2
    rw [List.forall_mem_map]
    intro other earlier
    have isKind : other ∈ kinds env.repeatLimit := by
      rw [split]
      exact List.mem_append_left _ earlier
    exact kind_misses rules ignored among isKind (apart other earlier kind List.mem_cons_self)
      inKind rest
  -- The node of the choice stands between the match of the value and that of its kind.
  refine (Yields.ref valueRule (Yields.rule (Yields.choice exprs missed yields))).mono ?_
  rintro _ ⟨span, _, rfl, place, index, inner, rfl, decoded⟩
  exact ⟨⟨_, _, rfl⟩, (decoded.choice index).value⟩

theorem no_elements_collect (inside : Blanks) (rest : List Char) :
    Collects ["value"] env false array (Syntax.Value.emptyArray inside).chars rest
      (([] : List (Nat × Value)).map fun result => HasValue result.1 result.2) := by
  have elementsRule : env.rules.lookup "elements" = some (.rule 6 "elements" .silent elements) :=
    defined rules rfl
  exact empty_list_collects (values_delimited env.repeatLimit) (blanks_recognizes ignored)
    (value_recognizes rules ignored) '[' elementsRule inside.property rest

theorem elements_collect {first : Element} {others : List Element}
    (fits : first.slot.Fits ["value"] env (.ref "value") isBlank isNumeric
      (IsValue env.repeatLimit))
    (fit : ∀ slot ∈ others.map Element.slot,
      slot.Fits ["value"] env (.ref "value") isBlank isNumeric (IsValue env.repeatLimit))
    (within : Intake.Allows env.repeatLimit others.length) (rest : List Char) :
    Collects ["value"] env false array (Syntax.Value.array first others).chars rest
      (((first :: others).map Element.reading).map
        fun result => HasValue result.1 result.2) := by
  have elementsRule : env.rules.lookup "elements" = some (.rule 6 "elements" .silent elements) :=
    defined rules rfl
  have collects : Collects ["value"] env false array _ rest _ :=
    list_collects (values_delimited env.repeatLimit) (blanks_recognizes ignored) '[' elementsRule
      (List.forall_mem_cons.mpr ⟨fits, fit⟩) (by rwa [List.length_map]) rest
  rw [Element.moreChars_slots, Element.goods_slots, Element.slot_chars, Element.slot_good]
    at collects
  exact collects

theorem no_members_collect (inside : Blanks) (rest : List Char) :
    Collects ["pair"] env false object (Syntax.Value.emptyObject inside).chars rest
      (([] : List (Nat × List Nat × Value)).map fun result => HasEntry result.1 result.2) := by
  have membersRule : env.rules.lookup "members" = some (.rule 3 "members" .silent members) :=
    defined rules rfl
  have recognizes := fun size =>
    pair_recognizes rules ignored (value_recognizes rules ignored size)
  exact empty_list_collects (pairs_delimited env.repeatLimit) (blanks_recognizes ignored)
    recognizes '\x7b' membersRule inside.property rest

theorem members_collect {first : Member} {others : List Member}
    (fits : first.slot.Fits ["pair"] env (.ref "pair") isBlank isNumeric
      (IsPair env.repeatLimit))
    (fit : ∀ slot ∈ others.map Member.slot,
      slot.Fits ["pair"] env (.ref "pair") isBlank isNumeric (IsPair env.repeatLimit))
    (within : Intake.Allows env.repeatLimit others.length) (rest : List Char) :
    Collects ["pair"] env false object (Syntax.Value.object first others).chars rest
      (((first :: others).map Member.reading).map
        fun result => HasEntry result.1 result.2) := by
  have membersRule : env.rules.lookup "members" = some (.rule 3 "members" .silent members) :=
    defined rules rfl
  have collects : Collects ["pair"] env false object _ rest _ :=
    list_collects (pairs_delimited env.repeatLimit) (blanks_recognizes ignored) '\x7b' membersRule
      (List.forall_mem_cons.mpr ⟨fits, fit⟩) (by rwa [List.length_map]) rest
  rw [Member.moreChars_slots, Member.goods_slots, Member.slot_chars, Member.slot_good] at collects
  exact collects

-- The recursion supplies the hypotheses, which the linter does not see.
set_option linter.unusedSectionVars false in
mutual

/-- From the text of a value the match of a value is yielded, and its value is the meaning of the
text. -/
theorem value_yields : (value : Syntax.Value) →
    (∀ most, env.repeatLimit = some most → value.Within most) → (rest : List Char) →
    Spares isNumeric rest →
    Yields env false (.ref "value") value.chars rest (Decodes value.depth value.meaning)
  | .word (.truth true), _, rest, _ =>
    value_of_kind rules ignored (List.mem_of_getElem? (i := 4) rfl) rfl
      (word_yields rules rfl .true rest)
  | .word (.truth false), _, rest, _ =>
    value_of_kind rules ignored (List.mem_of_getElem? (i := 5) rfl) rfl
      (word_yields rules rfl .false rest)
  | .word .null, _, rest, _ =>
    value_of_kind rules ignored (List.mem_of_getElem? (i := 6) rfl) rfl
      (word_yields rules rfl .null rest)
  | .number number, within, rest, ends =>
    value_of_kind rules ignored (List.mem_of_getElem? (i := 3) rfl) ⟨number, within, rfl⟩
      (number_yields rules within ends)
  | .string string, within, rest, _ => by
    refine value_of_kind rules ignored (List.mem_of_getElem? (i := 2) rfl) ⟨string, within, rfl⟩ ?_
    refine (string_yields rules within rest).mono ?_
    rintro _ ⟨⟨span, child, rfl⟩, decoded⟩
    exact .string decoded
  | .emptyArray inside, _, rest, _ => by
    refine value_of_kind rules ignored (List.mem_of_getElem? (i := 1) rfl)
      (isArray_iff.mpr (.inl ⟨inside, rfl⟩)) ?_
    exact array_yields rules (no_elements_collect rules ignored inside rest)
  | .array first others, within, rest, _ => by
    have fits := element_fits first fun most limited => (within most limited).2.1
    have fit := elements_fit others fun most limited => (within most limited).2.2
    rw [(Syntax.Value.array_eq first others).1]
    refine value_of_kind rules ignored (List.mem_of_getElem? (i := 1) rfl)
      (isArray_iff.mpr (.inr ⟨first, others, within, rfl⟩)) ?_
    rw [(Syntax.Value.array_eq first others).2]
    exact array_yields rules (elements_collect rules ignored fits fit
      (fun most limited => (within most limited).1) rest)
  | .emptyObject inside, _, rest, _ => by
    refine value_of_kind rules ignored (List.mem_of_getElem? (i := 0) rfl)
      (isObject_iff.mpr (.inl ⟨inside, rfl⟩)) ?_
    exact object_yields rules (no_members_collect rules ignored inside rest)
  | .object first others, within, rest, _ => by
    have fits := member_fits first fun most limited => (within most limited).2.1
    have fit := members_fit others fun most limited => (within most limited).2.2
    rw [(Syntax.Value.object_eq first others).1]
    refine value_of_kind rules ignored (List.mem_of_getElem? (i := 0) rfl)
      (isObject_iff.mpr (.inr ⟨first, others, within, rfl⟩)) ?_
    rw [(Syntax.Value.object_eq first others).2]
    exact object_yields rules (members_collect rules ignored fits fit
      (fun most limited => (within most limited).1) rest)

theorem element_fits : (element : Element) →
    (∀ most, env.repeatLimit = some most → element.Within most) →
    element.slot.Fits ["value"] env (.ref "value") isBlank isNumeric (IsValue env.repeatLimit)
  | .mk before value after, within => by
    refine ⟨before.property, ⟨value, within, rfl⟩, after.property, fun rest ends => ?_⟩
    exact value_collects List.mem_cons_self (value_yields value within rest ends)

theorem elements_fit : (elements : List Element) →
    (∀ most, env.repeatLimit = some most → Element.AllWithin most elements) →
    ∀ slot ∈ elements.map Element.slot,
      slot.Fits ["value"] env (.ref "value") isBlank isNumeric (IsValue env.repeatLimit)
  | [], _ => nofun
  | element :: others, within => by
    rw [List.map_cons, List.forall_mem_cons]
    exact ⟨element_fits element fun most limited => (within most limited).1,
      elements_fit others fun most limited => (within most limited).2⟩

theorem member_fits : (member : Member) →
    (∀ most, env.repeatLimit = some most → member.Within most) →
    member.slot.Fits ["pair"] env (.ref "pair") isBlank isNumeric (IsPair env.repeatLimit)
  | .mk before name after (.mk next value last), within => by
    have short : ∀ most, env.repeatLimit = some most → name.Within most :=
      fun most limited => (within most limited).1
    have small : ∀ most, env.repeatLimit = some most → value.Within most :=
      fun most limited => (within most limited).2
    refine ⟨before.property, ?_, last.property, fun rest ends => ?_⟩
    · exact ⟨_, _, _, _, ⟨name, short, rfl⟩, after.property, next.property, ⟨value, small, rfl⟩,
        rfl⟩
    · exact pair_collects rules ignored short after.property next.property ⟨value, small, rfl⟩
        (value_yields value small rest ends)

theorem members_fit : (members : List Member) →
    (∀ most, env.repeatLimit = some most → Member.AllWithin most members) →
    ∀ slot ∈ members.map Member.slot,
      slot.Fits ["pair"] env (.ref "pair") isBlank isNumeric (IsPair env.repeatLimit)
  | [], _ => nofun
  | member :: others, within => by
    rw [List.map_cons, List.forall_mem_cons]
    exact ⟨member_fits member fun most limited => (within most limited).1,
      members_fit others fun most limited => (within most limited).2⟩

end

/-! ### Documents -/

/-- From a whole text the match of the document is yielded, up to the blanks at the end. -/
theorem document_yields {before after : Blanks} {value : Syntax.Value}
    (within : ∀ most, env.repeatLimit = some most → value.Within most)
    (whole : env.input.chars.toList = (before.val ++ value.chars) ++ after.val) :
    Yields env false (.rule 0 "document" .normal document) (before.val ++ value.chars) after.val
      (HasValue (value.depth + 1) value.meaning) := by
  have start : (Scan.expr env false (.terminal .startOfInput)).Takes env
      ([] ++ ((before.val ++ value.chars) ++ after.val)) (some []) := by
    rw [List.nil_append, ← whole]
    exact start_takes false
  have starts : Spares isBlank (value.chars ++ after.val) :=
    item_spares (values_delimited env.repeatLimit) ⟨value, within, rfl⟩ after.val
  have yields := value_yields rules ignored value within after.val
    (blanks_not_numeric after.property)
  have collects : Collects ["value"] env false document (before.val ++ value.chars) after.val
      [HasValue value.depth value.meaning] :=
    (Collects.leaf start).seq
      (.last (Recognizes.takes (blanks_recognizes ignored) ⟨before.property, starts⟩)
        (value_collects List.mem_cons_self yields))
  refine (Yields.rule collects).mono ?_
  rintro _ ⟨span, inner, rfl, bears⟩
  have nearest := rulesWithin_of_bears bears "document" span
  obtain ⟨only, _, isOnly, ⟨⟩, found⟩ := List.forall₂_cons_left_iff.mp nearest
  exact HasValue.document isOnly found

/-- A parse of a whole JSON text succeeds with a tree that has the value of the text. -/
theorem document_parses {document : Document}
    (within : ∀ most, env.repeatLimit = some most → document.Within most)
    (whole : env.input.chars.toList = document.chars) (forced : List LazyCell) :
    ∃ enough, ∀ fuel, enough ≤ fuel → ∃ found node after,
      parse env fuel (.rule 0 "document" .normal Json.document) { forced } =
          .done (.ok found) after ∧
        found.node = some node ∧ HasValue document.depth document.meaning node := by
  obtain ⟨before, value, after⟩ := document
  have split : env.input.chars.toList = (before.val ++ value.chars) ++ after.val := by
    rw [whole, Element.chars, List.append_assoc]
  have loose : ¬LeadsToAtomic env (.rule 0 "document" .normal Json.document) := by
    rintro ⟨⟨⟩⟩
  exact Yields.parses ignored (fun input => (blank_takesOne input).rule)
    (document_yields rules ignored within split) loose split after.property forced

end Rules

/-! ### Loading -/

/-- Loading a text decodes the tree of a parse of the text. -/
theorem load_eq (text : String) (fuel room : Nat) : load text fuel room = (do
    let found ← (Reply.ofAction (parse (textEnv text (some 1024) false []) fuel
      (.rule 0 "document" .normal document)) []).answer.mapError .call
    match found.node with
    | some node => (decode room node).mapError .decode
    | none => .error (.decode .absentNode)) := by
  have called : grammar.parse [] [] .default { text := .text text } fuel =
      .ok (grammar.noteFailure (.expr (.rule 0 "document" .normal document)) false
        (.ofAction (parse (textEnv text (some 1024) false []) fuel
          (.rule 0 "document" .normal document)) [])) := rfl
  have named : (Operand.expr (.rule 0 "document" .normal document)).name? = some "document" := rfl
  rw [← Grammar.noteFailure_answer_of_named grammar named false, load, loadFrom, called]
  rfl

/-- The text of a document is loaded as what it means, if there is room for its depth. -/
theorem load_document {document : Document} (within : document.Within 1024) :
    ∃ enough, ∀ fuel, enough ≤ fuel → ∀ room,
      load (String.ofList document.chars) fuel room =
        if document.depth ≤ room then .ok document.meaning else .error (.decode .tooDeep) := by
  let env := textEnv (String.ofList document.chars) (some 1024) false []
  have whole : env.input.chars.toList = document.chars := String.toList_ofList
  have short : ∀ most, env.repeatLimit = some most → document.Within most := by
    rintro _ ⟨⟩
    exact within
  have rules : env.rules = grammar.table := rfl
  obtain ⟨enough, parses⟩ := document_parses rules rfl short whole []
  refine ⟨enough, fun fuel le room => ?_⟩
  obtain ⟨found, node, after, parsed, tree, decoded⟩ := parses fuel le
  have read : decode room node = _ := decoded room
  rw [load_eq, Reply.ofAction, parsed]
  -- The tree is the same for any room, which only decides whether it can be read.
  by_cases fits : document.depth ≤ room
  · rw [if_pos fits] at read ⊢
    simp only [Except.mapError, Except.bind, bind, tree, read]
  · rw [if_neg fits] at read ⊢
    simp only [Except.mapError, Except.bind, bind, tree, read]

/-- What is loaded from a rendering of a value is the value, if the rendering keeps to the limit of
repetitions that holds where no other is set, and if there is room for the calls that stand inside
each other where its parts do. Given enough fuel, a rendering that is nested deeper than that is
refused for this reason, and any other is loaded. -/
theorem loading_undoes_rendering_within_room (document : Document) (value : Value)
    (renders : document.Renders value) (within : document.Within 1024) :
    let text := String.ofList document.chars
    ∃ enough, ∀ fuel, enough ≤ fuel → ∀ room,
      (document.depth ≤ room → ∃ loaded, load text fuel room = .ok loaded ∧ loaded.Same value) ∧
      (room < document.depth → load text fuel room = .error (.decode .tooDeep)) := by
  intro text
  have same : document.meaning.Same value := document.meaning_same renders
  obtain ⟨enough, loads⟩ := load_document within
  refine ⟨enough, fun fuel le room => ⟨fun fits => ?_, fun deep => ?_⟩⟩
  · exact ⟨document.meaning, by rw [loads fuel le, if_pos fits], same⟩
  · rw [loads fuel le, if_neg (Nat.not_le.mpr deep)]

/-- An object with an array in it. An escape stands for a letter, and another for a line feed. -/
def sampleText : Document :=
  let none : Blanks := ⟨[], by simp⟩
  let one : Blanks := ⟨[' '], by simp [isBlank]⟩
  let number : Number := ⟨true, .leading '1' (by decide) ⟨['0'], by simp⟩, .none, .none⟩
  let string : Quoted :=
    ⟨[.unit '0' '0' 'E' '9', .short 'n' '\n'], by simp [Piece.Valid, hexValue?, shortMeaning?]⟩
  .mk one (.object
    (.mk none ⟨[.plain 'b'], by simp [Piece.Valid]⟩ one
      (.mk one (.array (.mk none (.number number) none) [.mk one (.string string) none]) none))
    [.mk one ⟨[.plain 'a'], by simp [Piece.Valid]⟩ none (.mk none (.word .null) none)]) none

/-- The value of the sample, with its members in the other order. -/
def sampleValue : Value :=
  .object [([0x61], .null), ([0x62], .array [.int (-10), .str [0xe9, 0x0a]])]

theorem sampleText_renders : sampleText.Renders sampleValue := by
  have name (letter : Char) : List.Forall₂ Piece.Renders [letter.toNat] [.plain letter] :=
    .cons rfl .nil
  have string : List.Forall₂ Piece.Renders [0xe9, 0x0a]
      [.unit '0' '0' 'E' '9', .short 'n' '\n'] := by
    refine .cons ?_ (.cons ?_ .nil)
    · exact ⟨by decide, by decide, by decide, by decide, by decide, by decide⟩
    · exact List.mem_of_getElem? (i := 5) rfl
  refine ⟨([0x62], _), [([0x61], .null)], _, ⟨name 'b', ?_⟩,
    ⟨([0x61], .null), [], ⟨name 'a', rfl⟩, rfl, rfl⟩, .swap _ _ _, by decide, rfl⟩
  exact ⟨_, _, ⟨-10, ⟨rfl, rfl, rfl⟩, rfl⟩, ⟨_, _, ⟨_, string, rfl⟩, rfl, rfl⟩, rfl⟩

theorem sampleText_within : sampleText.Within 1024 := by
  simp [sampleText, Element.Within, Value.Within, Element.AllWithin, Member.AllWithin,
    Member.Within, Number.Within, Whole.Within, Quoted.Within]

theorem sampleText_loads :
    let text := " \x7b\"b\" : [-10, \"\\u00E9\\n\"], \"a\":null\x7d"
    sampleText.chars = text.toList ∧ sampleText.Renders sampleValue ∧ sampleText.Within 1024 ∧
      ∃ enough, ∀ fuel, enough ≤ fuel →
        (∃ loaded, load text fuel = .ok loaded ∧ loaded.Same sampleValue) ∧
          load text fuel 11 = .error (.decode .tooDeep) := by
  intro text
  have chars : sampleText.chars = text.toList := by decide
  have depth : sampleText.depth = 12 := by decide
  obtain ⟨enough, loads⟩ := loading_undoes_rendering_within_room sampleText sampleValue
    sampleText_renders sampleText_within
  rw [chars, String.ofList_toList, depth] at loads
  refine ⟨chars, sampleText_renders, sampleText_within, enough, fun fuel le => ⟨?_, ?_⟩⟩
  · exact (loads fuel le ampleRoom).1 (by decide)
  · exact (loads fuel le 11).2 (by decide)

/-! ### Arrays in arrays -/

/-- An empty array in so many others. -/
def nestedText : Nat → Document
  | 0 => .mk ⟨[], by simp⟩ (.emptyArray ⟨[], by simp⟩) ⟨[], by simp⟩
  | inner + 1 => .mk ⟨[], by simp⟩ (.array (nestedText inner) []) ⟨[], by simp⟩

def nestedValue : Nat → Value
  | 0 => .array []
  | inner + 1 => .array [nestedValue inner]

theorem nestedText_chars (inner : Nat) : (nestedText inner).chars =
    List.replicate (inner + 1) '[' ++ List.replicate (inner + 1) ']' := by
  induction inner with
  | zero => rfl
  | succ inner ih =>
    simp only [nestedText, Element.chars, Value.chars, Element.moreChars, ih, List.nil_append,
      List.append_nil]
    rw [List.append_assoc, ← List.replicate_succ']
    rfl

theorem nestedText_renders (inner : Nat) : (nestedText inner).Renders (nestedValue inner) := by
  induction inner with
  | zero => rfl
  | succ inner ih => exact ⟨_, _, ih, rfl, rfl⟩

theorem nestedText_within (inner most : Nat) : (nestedText inner).Within most := by
  induction inner with
  | zero => trivial
  | succ inner ih => exact ⟨Nat.zero_le most, ih, trivial⟩

theorem nestedText_depth (inner : Nat) : (nestedText inner).depth = 4 * inner + 5 := by
  induction inner with
  | zero => rfl
  | succ inner ih =>
    -- Each array around takes four calls more.
    have depth : (nestedText (inner + 1)).depth = max ((nestedText inner).depth - 1) 0 + 5 := rfl
    rw [depth, ih]
    omega

/-- Four hundred arrays in each other take more calls than are allowed. -/
theorem nested_arrays_too_deep :
    let text := String.ofList (List.replicate 400 '[' ++ List.replicate 400 ']')
    ∃ (document : Document) (value : Value), document.chars = text.toList ∧
      document.Renders value ∧ document.Within 1024 ∧
        ∃ enough, ∀ fuel, enough ≤ fuel → load text fuel = .error (.decode .tooDeep) := by
  intro text
  have chars : (nestedText 399).chars = List.replicate 400 '[' ++ List.replicate 400 ']' :=
    nestedText_chars 399
  have deep : ampleRoom < (nestedText 399).depth := by
    rw [nestedText_depth]
    decide
  obtain ⟨enough, loads⟩ := load_document (nestedText_within 399 1024)
  rw [chars] at loads
  refine ⟨nestedText 399, nestedValue 399, ?_, nestedText_renders 399, nestedText_within 399 1024,
    enough, fun fuel le => (loads fuel le ampleRoom).trans (if_neg (Nat.not_le.mpr deep))⟩
  rw [chars, String.toList_ofList]

end Peg.Json
