import Mathlib.Data.List.Perm.Basic
import Peg.Proofs.Json.Decoding

/-!
# What JSON texts stand for

The value that a JSON text stands for, and what it is to be a rendering of a value. A rendering may
put blanks between the tokens, escape characters that need not be escaped, and list the members of
an object in any order. The order of members does not count for what a value is.

A text stands for a value that is the same as any that it is a rendering of.
-/
namespace Peg.Json

/-- The values differ in nothing but the order of members. -/
inductive Value.Same : Value → Value → Prop
  | refl (value : Value) : Same value value
  | array {items others : List Value} :
      List.Forall₂ Same items others → Same (.array items) (.array others)
  | object {members shown others : List (List Nat × Value)} :
      members.map Prod.fst = shown.map Prod.fst →
      List.Forall₂ Same (members.map Prod.snd) (shown.map Prod.snd) → shown.Perm others →
      Same (.object members) (.object others)

/-! ### Characters -/

/-- The marks of the short escapes with the code points of the characters that they stand for. -/
def shortEscapes : List (Char × Nat) :=
  [('"', 0x22), ('\\', 0x5c), ('/', 0x2f), ('b', 0x08), ('f', 0x0c), ('n', 0x0a), ('r', 0x0d),
    ('t', 0x09)]

/-- The hexadecimal digits in order, in either case. -/
def hexRows : List (List Char) :=
  [['0', '1', '2', '3', '4', '5', '6', '7', '8', '9', 'a', 'b', 'c', 'd', 'e', 'f'],
    ['0', '1', '2', '3', '4', '5', '6', '7', '8', '9', 'A', 'B', 'C', 'D', 'E', 'F']]

def IsHex (digit : Char) (value : Nat) : Prop := ∃ row ∈ hexRows, row[value]? = some digit

instance (digit : Char) (value : Nat) : Decidable (IsHex digit value) :=
  inferInstanceAs (Decidable (∃ row ∈ hexRows, _))

/-- How a character can be written, by its code point: as it is, by a short escape, or by the four
hexadecimal digits of a code point that is no surrogate. -/
def Piece.Renders (point : Nat) : Piece → Prop
  | plain c => c.toNat = point
  | short mark _ => (mark, point) ∈ shortEscapes
  | unit a b c d => point < 0x10000 ∧ ¬(0xd800 ≤ point ∧ point ≤ 0xdfff) ∧
      IsHex a (point / 4096) ∧ IsHex b (point / 256 % 16) ∧ IsHex c (point / 16 % 16) ∧
        IsHex d (point % 16)

theorem hexValue_of_isHex {digit : Char} {value : Nat} (isHex : IsHex digit value) :
    hexValue? digit = some value := by
  have all : ∀ row ∈ hexRows, ∀ place ∈ row.zipIdx, hexValue? place.1 = some place.2 := by decide
  obtain ⟨row, among, placed⟩ := isHex
  exact all row among (digit, value) (List.mk_mem_zipIdx_iff_getElem?.mpr placed)

theorem shortMeaning_of_mem {mark : Char} {point : Nat} (listed : (mark, point) ∈ shortEscapes) :
    (shortMeaning? mark).map Char.toNat = some point := by
  have all : ∀ escape ∈ shortEscapes, (shortMeaning? escape.1).map Char.toNat = some escape.2 := by
    decide
  exact all (mark, point) listed

/-- The digits of a code unit from left to right. -/
theorem codePoint_unit {a b c d : Char} {point : Nat} (small : point < 0x10000)
    (first : IsHex a (point / 4096)) (second : IsHex b (point / 256 % 16))
    (third : IsHex c (point / 16 % 16)) (fourth : IsHex d (point % 16)) :
    (Piece.unit a b c d).codePoint = point := by
  simp only [Piece.codePoint, List.foldl_cons, List.foldl_nil, hexValue_of_isHex first,
    hexValue_of_isHex second, hexValue_of_isHex third, hexValue_of_isHex fourth, Option.getD_some]
  omega

theorem Piece.codePoint_of_renders {piece : Piece} {point : Nat} (valid : piece.Valid)
    (renders : piece.Renders point) : piece.codePoint = point := by
  cases piece with
  | plain c => exact renders
  | short mark meant =>
    have listed := shortMeaning_of_mem renders
    rw [show shortMeaning? mark = some meant from valid] at listed
    exact Option.some.inj listed
  | unit a b c d =>
    obtain ⟨small, _, first, second, third, fourth⟩ := renders
    exact codePoint_unit small first second third fourth

namespace Syntax

/-! ### Meanings -/

/-- The code points of a string. -/
def Quoted.points (quoted : Quoted) : List Nat := quoted.pieces.map Piece.codePoint

mutual

/-- The value that a text stands for. Of members with one name the last one counts. -/
def Value.meaning : Value → Json.Value
  | .word (.truth value) => .bool value
  | .word .null => .null
  | .number number => numberValue (String.ofList number.chars)
  | .string string => .str string.points
  | .emptyArray _ => .array []
  | .array first rest => .array (first.meaning :: Element.meanings rest)
  | .emptyObject _ => .object []
  | .object first rest => .object (setMembers (first.meaning :: Member.meanings rest))

def Element.meaning : Element → Json.Value
  | .mk _ value _ => value.meaning

def Element.meanings : List Element → List Json.Value
  | [] => []
  | element :: rest => element.meaning :: Element.meanings rest

def Member.meaning : Member → List Nat × Json.Value
  | .mk _ name _ element => (name.points, element.meaning)

def Member.meanings : List Member → List (List Nat × Json.Value)
  | [] => []
  | member :: rest => member.meaning :: Member.meanings rest

end

/-! ### Depths -/

mutual

/-- How many calls stand inside each other where the value of a text is read: one for the match of a
value, one for the alternative in it and one for what it is, and one more around the parts of an
array or an object. -/
def Value.depth : Value → Nat
  | .word _ | .number _ | .string _ => 3
  | .emptyArray _ | .emptyObject _ => 4
  | .array first rest => max first.depth (Element.depths rest) + 4
  | .object first rest => max first.depth (Member.depths rest) + 4

def Element.depth : Element → Nat
  | .mk _ value _ => value.depth

def Element.depths : List Element → Nat
  | [] => 0
  | element :: rest => max element.depth (Element.depths rest)

def Member.depth : Member → Nat
  | .mk _ _ _ element => element.depth

def Member.depths : List Member → Nat
  | [] => 0
  | member :: rest => max member.depth (Member.depths rest)

end

/-- How many calls it takes to read the value of a whole text: one more for the document. -/
def Document.depth (document : Document) : Nat := Element.depth document + 1

/-- What is read of an element, and how much room that needs. -/
def Element.reading (element : Element) : Nat × Json.Value := (element.depth, element.meaning)

def Member.reading (member : Member) : Nat × List Nat × Json.Value := (member.depth, member.meaning)

theorem Element.meanings_eq (elements : List Element) :
    meanings elements = elements.map meaning := by
  induction elements with
  | nil => simp [meanings]
  | cons element rest ih => simp [meanings, ih]

theorem Member.meanings_eq (members : List Member) : meanings members = members.map meaning := by
  induction members with
  | nil => simp [meanings]
  | cons member rest ih => simp [meanings, ih]

theorem Element.depths_eq (elements : List Element) :
    depths elements = ((elements.map reading).map Prod.fst).foldr max 0 := by
  induction elements with
  | nil => rw [depths]; rfl
  | cons element rest ih => rw [depths, ih]; rfl

theorem Member.depths_eq (members : List Member) :
    depths members = ((members.map reading).map Prod.fst).foldr max 0 := by
  induction members with
  | nil => rw [depths]; rfl
  | cons member rest ih => rw [depths, ih]; rfl

/-- What is read of an array is what is read of its elements. -/
theorem Value.array_eq (first : Element) (rest : List Element) :
    (Value.array first rest).depth =
        (((first :: rest).map Element.reading).map Prod.fst).foldr max 0 + 4 ∧
      (Value.array first rest).meaning =
        .array (((first :: rest).map Element.reading).map Prod.snd) := by
  rw [← Element.depths_eq, Element.depths, depth, meaning, Element.meanings_eq, List.map_map]
  exact ⟨rfl, rfl⟩

theorem Value.object_eq (first : Member) (rest : List Member) :
    (Value.object first rest).depth =
        (((first :: rest).map Member.reading).map Prod.fst).foldr max 0 + 4 ∧
      (Value.object first rest).meaning =
        .object (setMembers (((first :: rest).map Member.reading).map Prod.snd)) := by
  rw [← Member.depths_eq, Member.depths, depth, meaning, Member.meanings_eq, List.map_map]
  exact ⟨rfl, rfl⟩

/-! ### Renderings -/

/-- The number that a decimal digit stands for. -/
def digitValue (digit : Char) : Nat := digit.toNat - '0'.toNat

/-- The whole number that the digits stand for. -/
def Whole.value (whole : Whole) : Nat := Nat.ofDigits 10 (whole.chars.reverse.map digitValue)

/-- A rendering of a whole number has its digits and its sign, and nothing else. -/
def Number.Renders (number : Number) (value : Int) : Prop :=
  number.fraction = none ∧ number.exponent = none ∧
    value = if number.negative then -(number.whole.value : Int) else number.whole.value

def Quoted.Renders (quoted : Quoted) (points : List Nat) : Prop :=
  List.Forall₂ Piece.Renders points quoted.pieces

mutual

/-- The text is a rendering of the value, which has no other numbers in it than whole ones, and no
object with two members of one name. -/
def Value.Renders : Value → Json.Value → Prop
  | .word (.truth truth), value => value = .bool truth
  | .word .null, value => value = .null
  | .number number, value => ∃ whole, number.Renders whole ∧ value = .int whole
  | .string string, value => ∃ points, string.Renders points ∧ value = .str points
  | .emptyArray _, value => value = .array []
  | .array first rest, value => ∃ item items, first.Renders item ∧ Element.AllRender rest items ∧
      value = .array (item :: items)
  | .emptyObject _, value => value = .object []
  | .object first rest, value => ∃ entry entries members, first.Renders entry ∧
      Member.AllRender rest entries ∧ (entry :: entries).Perm members ∧
      (members.map Prod.fst).Nodup ∧ value = .object members

def Element.Renders : Element → Json.Value → Prop
  | .mk _ value _, item => value.Renders item

def Element.AllRender : List Element → List Json.Value → Prop
  | [], items => items = []
  | element :: rest, items => ∃ item others, element.Renders item ∧
      Element.AllRender rest others ∧ items = item :: others

def Member.Renders : Member → List Nat × Json.Value → Prop
  | .mk _ name _ element, entry => name.Renders entry.1 ∧ element.Renders entry.2

def Member.AllRender : List Member → List (List Nat × Json.Value) → Prop
  | [], entries => entries = []
  | member :: rest, entries => ∃ entry others, member.Renders entry ∧
      Member.AllRender rest others ∧ entries = entry :: others

end

/-! ### Renderings mean what they render -/

theorem Quoted.points_of_renders {quoted : Quoted} {points : List Nat}
    (renders : quoted.Renders points) : quoted.points = points := by
  obtain ⟨pieces, valid⟩ := quoted
  change List.Forall₂ Piece.Renders points pieces at renders
  change pieces.map Piece.codePoint = points
  induction renders with
  | nil => rfl
  | cons first _ ih =>
    obtain ⟨fine, others⟩ := List.forall_mem_cons.mp valid
    rw [List.map_cons, Piece.codePoint_of_renders fine first, ih others]

/-- A digit begins neither a fraction nor an exponent. -/
theorem digit_plain {c : Char} (digit : c.isDigit = true) :
    ¬(c == '.' || isExponentMark c) = true := by
  intro special
  rcases Bool.or_eq_true_iff.mp special with dot | mark
  · cases beq_iff_eq.mp dot
    cases digit
  · rcases Bool.or_eq_true_iff.mp mark with lower | upper
    · cases beq_iff_eq.mp lower
      cases digit
    · cases beq_iff_eq.mp upper
      cases digit

theorem numberValue_of_renders {number : Number} {value : Int} (renders : number.Renders value) :
    numberValue (String.ofList number.chars) = .int value := by
  obtain ⟨negative, whole, fraction, exponent⟩ := number
  obtain ⟨rfl, rfl, rfl⟩ := renders
  have chars : (Number.mk negative whole none none).chars = signChars negative ++ whole.chars := by
    simp [Number.chars, fractionChars, exponentChars]
  -- Without a mark of a fraction or an exponent the number is read as a whole one.
  have plain : (signChars negative ++ whole.chars).any
      (fun c => c == '.' || isExponentMark c) = false := by
    rw [List.any_eq_false]
    intro c among
    rcases List.mem_append.mp among with sign | digit
    · cases negative with
      | false => cases sign
      | true =>
        cases List.mem_singleton.mp sign
        decide
    · exact digit_plain (whole.isDigit c digit)
  rw [numberValue, String.toList_ofList, chars, plain]
  have digits := signedValue_of_digits whole.isDigit
  rw [decimalValue_eq] at digits
  cases negative with
  | false => exact congrArg Json.Value.int digits
  | true =>
    refine congrArg (fun value : Nat => Json.Value.int (-value)) ?_
    exact decimalValue_eq whole.chars

mutual

theorem Value.meaning_same : (value : Value) → {item : Json.Value} →
    value.Renders item → value.meaning.Same item
  | .word (.truth _), _, renders | .word .null, _, renders | .emptyArray _, _, renders
  | .emptyObject _, _, renders => by
    simp only [Value.Renders] at renders
    subst renders
    simp only [Value.meaning]
    exact .refl _
  | .number number, _, renders => by
    simp only [Value.Renders] at renders
    obtain ⟨whole, renders, rfl⟩ := renders
    rw [Value.meaning, numberValue_of_renders renders]
    exact .refl _
  | .string string, _, renders => by
    simp only [Value.Renders] at renders
    obtain ⟨points, renders, rfl⟩ := renders
    rw [Value.meaning, Quoted.points_of_renders renders]
    exact .refl _
  | .array first rest, _, renders => by
    simp only [Value.Renders] at renders
    obtain ⟨item, items, isFirst, areOthers, rfl⟩ := renders
    rw [Value.meaning]
    exact .array (.cons (Element.meaning_same first isFirst) (Element.meanings_same rest areOthers))
  | .object first rest, _, renders => by
    simp only [Value.Renders] at renders
    obtain ⟨entry, entries, members, isFirst, areOthers, perm, distinct, rfl⟩ := renders
    obtain ⟨name, value⟩ := Member.meaning_same first isFirst
    obtain ⟨names, values⟩ := Member.meanings_same rest areOthers
    have same : (first.meaning :: Member.meanings rest).map Prod.fst =
        (entry :: entries).map Prod.fst := by
      rw [List.map_cons, List.map_cons, name, names]
    -- The names are distinct in the order of the text, too, so that no member is set twice.
    have apart : ((entry :: entries).map Prod.fst).Nodup :=
      (perm.map Prod.fst).nodup_iff.mpr distinct
    rw [Value.meaning, setMembers_of_nodup (same ▸ apart)]
    exact .object same (.cons value values) perm

theorem Element.meaning_same : (element : Element) → {item : Json.Value} →
    element.Renders item → element.meaning.Same item
  | .mk _ value _, _, renders => by
    simp only [Element.Renders] at renders
    rw [Element.meaning]
    exact Value.meaning_same value renders

theorem Element.meanings_same : (elements : List Element) → {items : List Json.Value} →
    Element.AllRender elements items →
      List.Forall₂ Json.Value.Same (Element.meanings elements) items
  | [], _, render => by
    simp only [Element.AllRender] at render
    subst render
    rw [Element.meanings]
    exact .nil
  | element :: rest, _, render => by
    simp only [Element.AllRender] at render
    obtain ⟨item, others, isFirst, areOthers, rfl⟩ := render
    rw [Element.meanings]
    exact .cons (Element.meaning_same element isFirst) (Element.meanings_same rest areOthers)

theorem Member.meaning_same : (member : Member) → {entry : List Nat × Json.Value} →
    member.Renders entry → member.meaning.1 = entry.1 ∧ member.meaning.2.Same entry.2
  | .mk _ name _ element, _, renders => by
    simp only [Member.Renders] at renders
    rw [Member.meaning]
    exact ⟨Quoted.points_of_renders renders.1, Element.meaning_same element renders.2⟩

theorem Member.meanings_same : (members : List Member) →
    {entries : List (List Nat × Json.Value)} → Member.AllRender members entries →
      (Member.meanings members).map Prod.fst = entries.map Prod.fst ∧
        List.Forall₂ Json.Value.Same ((Member.meanings members).map Prod.snd) (entries.map Prod.snd)
  | [], _, render => by
    simp only [Member.AllRender] at render
    subst render
    rw [Member.meanings]
    exact ⟨rfl, .nil⟩
  | member :: rest, _, render => by
    simp only [Member.AllRender] at render
    obtain ⟨entry, others, isFirst, areOthers, rfl⟩ := render
    obtain ⟨name, value⟩ := Member.meaning_same member isFirst
    obtain ⟨names, values⟩ := Member.meanings_same rest areOthers
    rw [Member.meanings]
    refine ⟨?_, .cons value values⟩
    rw [List.map_cons, List.map_cons, name, names]

end

end Syntax

end Peg.Json
