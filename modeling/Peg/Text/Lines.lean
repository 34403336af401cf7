import Peg.Text.Slice

/-!
Lines and columns of a text, both counted from one. A line ends at a line feed. An offset may be
any integer: the line is found at the place that it stands for as a slice bound, and the column
keeps the distance from the start of that line, which outside the text need not be positive.
-/

namespace Peg.Text

/-- The place just after the last line feed among the first characters, or the start of the text. -/
def lineStart (chars : Array Char) : Nat → Nat
  | 0 => 0
  | place + 1 => if chars[place]? = some '\n' then place + 1 else lineStart chars place

/-- The line and the column of an offset. -/
def lineColumn (chars : Array Char) (offset : Int) : Int × Int :=
  let place := clampBound chars.size offset
  ((chars.toList.take place).count '\n' + 1, offset - lineStart chars place + 1)

/-- A text without the carriage returns at its end. -/
def withoutTrailingReturns (text : List Char) : List Char :=
  (text.reverse.dropWhile (· = '\r')).reverse

/-- The line that holds the offset, carriage returns at its end left out. -/
def lineAt (chars : Array Char) (offset : Int) : List Char :=
  let place := clampBound chars.size offset
  let start := lineStart chars place
  withoutTrailingReturns
    ((chars.toList.take place).drop start ++ (chars.toList.drop place).takeWhile (· ≠ '\n'))

/-- The line that holds the offset, indented by four spaces, above a caret in its column. -/
def excerpt (chars : Array Char) (offset : Int) : String :=
  let margin := String.ofList (List.replicate 4 ' ')
  let caret := String.ofList (List.replicate ((lineColumn chars offset).2 - 1).toNat ' ') ++ "^"
  margin ++ String.ofList (lineAt chars offset) ++ "\n" ++ margin ++ caret

end Peg.Text
