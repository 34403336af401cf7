import Peg.Text.Printable

/-!
The literal form in which messages show a text value: single quotes around it, or double quotes if
it holds a single quote and no double quote. A character that does not print is written as an
escape with two, four or eight hexadecimal digits, the fewest that hold its code point.
-/

namespace Peg.Text

/-- The last `width` hexadecimal digits of a number, in small letters. -/
def hexDigits : (width : Nat) → Nat → List Char
  | 0, _ => []
  | width + 1, n => hexDigits width (n / 16) ++ [Nat.digitChar (n % 16)]

/-- The escape for a character that does not print. -/
def escapeCode (code : Nat) : List Char :=
  if code < 0x100 then '\\' :: 'x' :: hexDigits 2 code
  else if code < 0x10000 then '\\' :: 'u' :: hexDigits 4 code
  else '\\' :: 'U' :: hexDigits 8 code

/-- The form of one character of a literal with the given delimiter. -/
def literalChar (delimiter c : Char) : List Char :=
  if c = '\\' then ['\\', '\\']
  else if c = delimiter then ['\\', delimiter]
  else if c = '\n' then ['\\', 'n']
  else if c = '\r' then ['\\', 'r']
  else if c = '\t' then ['\\', 't']
  else if isPrintable c then [c]
  else escapeCode c.toNat

/-- The delimiter of a text's literal form. -/
def literalDelimiter (text : List Char) : Char :=
  if text.contains '\'' && !text.contains '"' then '"' else '\''

/-- The literal form of a text. -/
def literalForm (text : String) : String :=
  let delimiter := literalDelimiter text.toList
  String.ofList (delimiter :: text.toList.flatMap (literalChar delimiter) ++ [delimiter])

/-- The form of a list of values, given the form of each. -/
def listForm (items : List String) : String := "[" ++ ", ".intercalate items ++ "]"

/-- The form of a fixed row of values, given the form of each: parentheses around it, and a comma
after a single value. -/
def rowForm : List String → String
  | [item] => "(" ++ item ++ ",)"
  | items => "(" ++ ", ".intercalate items ++ ")"

end Peg.Text
