import Peg.Span
import Peg.Text.Lowercase

/-!
Positions in an input and what can be matched at them. A position always lies inside its input.
Matching never changes a position: it answers the position where the match ends, or nothing.
-/

namespace Peg

/-- A place between the characters of an input. -/
structure Position where
  /-- The input. -/
  input : Input
  /-- The number of characters before the position. -/
  offset : Nat
  /-- The position is not beyond the end. -/
  offset_le : offset ≤ input.size

namespace Position

/-- The start of an input. -/
def start (input : Input) : Position := ⟨input, 0, Nat.zero_le _⟩

/-- The position at an offset, if the input has one there. -/
def ofOffset (input : Input) (offset : Int) : Except PositionError Position :=
  if h : 0 ≤ offset ∧ offset ≤ input.size then .ok ⟨input, offset.toNat, by omega⟩
  else .error (.outside offset)

/-- Whether two positions are the same place of the same input. -/
def same (a b : Position) : Bool := a.input.id == b.input.id && a.offset == b.offset

/-- Whether one position comes before another, by their offsets alone. -/
def before (a b : Position) : Bool := a.offset < b.offset

/-- Whether a position is before another one or is the same. -/
def beforeOrSame (a b : Position) : Bool := a.before b || a.same b

/-- Whether a position is neither before another one nor the same. -/
def after (a b : Position) : Bool := !a.before b && !a.same b

/-- Whether a position is not before another one. -/
def notBefore (a b : Position) : Bool := !a.before b

/-- Whether the position is the start of the input. -/
def atStart (position : Position) : Bool := position.offset == 0

/-- Whether the position is the end of the input. -/
def atEnd (position : Position) : Bool := position.offset == position.input.size

/-- The number of characters from the position to the end. -/
def remaining (position : Position) : Nat := position.input.size - position.offset

/-- The next character. -/
def next? (position : Position) : Option Char := position.input.chars[position.offset]?

/-- The position after a text, if the input goes on with it. -/
def matchLiteral (position : Position) (text : String) : Option Position :=
  if h : position.input.continuesWith position.offset text.toList = true then
    some ⟨position.input, position.offset + text.toList.length,
      Input.le_size_of_continuesWith position.offset_le h⟩
  else none

/-- The position after a text, if the input goes on with it but for the case of its letters, and
the characters that stand there. Both are lower-cased as whole texts. -/
def matchIgnoringCase (position : Position) (text : String) : Option (Position × String) :=
  let length := text.toList.length
  if h : position.offset + length ≤ position.input.size then
    let actual :=
      (position.input.chars.extract position.offset (position.offset + length)).toList
    if Text.lower actual = Text.lower text.toList then
      some (⟨position.input, position.offset + length, h⟩, String.ofList actual)
    else none
  else none

/-- The position after the next character and that character, if it satisfies a condition. -/
def matchChar (position : Position) (accept : Char → Bool) : Option (Position × Char) :=
  if h : position.offset < position.input.chars.size then
    let c := position.input.chars[position.offset]
    if accept c then some (⟨position.input, position.offset + 1, h⟩, c) else none
  else none

/-- The position after the next character, if that lies between two characters. -/
def matchRange (position : Position) (low high : Char) : Option (Position × Char) :=
  position.matchChar fun c => low ≤ c && c ≤ high

/-- The position after the next character and that character, if it lies between two texts in the
order of texts. -/
def matchBetween (position : Position) (low high : String) : Option (Position × Char) :=
  position.matchChar fun c => !(c.toString < low) && !(high < c.toString)

/-- The position after the next character. -/
def matchAny (position : Position) : Option (Position × Char) :=
  position.matchChar fun _ => true

/-- The position a number of characters further on, if so many are left. A negative number leads
back, and is an error in front of the start. -/
def skip (position : Position) (count : Int) : Except PositionError (Option Position) :=
  if count ≤ position.remaining then
    (ofOffset position.input (position.offset + count)).map some
  else .ok none

/-- The first position from here on at which one of the texts comes next. -/
def skipUntil (position : Position) (texts : List String) : Option Position :=
  match h : position.input.find? (texts.map String.toList) position.offset position.remaining with
  | some found =>
    some ⟨position.input, found, by
      have := (Input.le_of_find?_eq_some h).2
      have := position.offset_le
      simp only [remaining] at *
      omega⟩
  | none => none

/-- The offset of the first character that differs from the text, or of the end of either. Letter
case counts unless it is ignored, and then each character is lower-cased on its own. -/
def mismatchOffset (position : Position) (text : String) (ignoreCase : Bool) : Nat :=
  position.offset +
    if ignoreCase then position.input.agreement Text.lowerChar position.offset text.toList
    else position.input.agreement id position.offset text.toList

/-- The span from this position to another one of the same input. -/
def spanTo (position other : Position) : Except PositionError Span :=
  if position.input.id = other.input.id then
    Span.between position.input position.offset other.offset
  else .error .differentInputs

/-- The line and the column of the position. -/
def lineColumn (position : Position) : Int × Int :=
  Text.lineColumn position.input.chars position.offset

/-- The form in which a message shows a position. -/
def form (position : Position) : String := s!"Position({position.offset})"

end Position

end Peg
