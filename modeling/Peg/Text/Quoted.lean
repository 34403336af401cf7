/-!
The quoted form in which labels show a text: the text between two delimiters, with a backslash
before a backslash or a delimiter, and with letters for line feed, carriage return and tabulator.
Every other character stands for itself.
-/

namespace Peg.Text

/-- The form of one character between two delimiters. -/
def quoteChar (delimiter c : Char) : List Char :=
  if c = '\\' then ['\\', '\\']
  else if c = '\n' then ['\\', 'n']
  else if c = '\r' then ['\\', 'r']
  else if c = '\t' then ['\\', 't']
  else if c = delimiter then ['\\', delimiter]
  else [c]

/-- A text between two delimiters. -/
def quote (delimiter : Char) (text : String) : String :=
  String.ofList (delimiter :: text.toList.flatMap (quoteChar delimiter) ++ [delimiter])

end Peg.Text
