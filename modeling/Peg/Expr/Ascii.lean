import Peg.Expr.Basic

/-!
Expressions for the usual classes of ASCII characters.
-/

namespace Peg.Expr

/-- A decimal digit. -/
def asciiDigit : Expr := charRange '0' '9'

/-- A decimal digit other than zero. -/
def asciiNonzeroDigit : Expr := charRange '1' '9'

/-- A binary digit. -/
def asciiBinDigit : Expr := charRange '0' '1'

/-- An octal digit. -/
def asciiOctDigit : Expr := charRange '0' '7'

/-- A hexadecimal digit in either case. -/
def asciiHexDigit : Expr := choice asciiDigit [charRange 'a' 'f', charRange 'A' 'F']

/-- A small letter. -/
def asciiAlphaLower : Expr := charRange 'a' 'z'

/-- A capital letter. -/
def asciiAlphaUpper : Expr := charRange 'A' 'Z'

/-- A letter. -/
def asciiAlpha : Expr := choice asciiAlphaLower [asciiAlphaUpper]

/-- A letter or a decimal digit. -/
def asciiAlphanumeric : Expr := choice asciiAlpha [asciiDigit]

/-- Any ASCII character. -/
def ascii : Expr := charRange '\x00' '\x7f'

end Peg.Expr
