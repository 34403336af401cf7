import Peg.Expr.Ascii
import Peg.Grammar

/-!
The grammar of JSON texts. Strings and numbers are atomic, so that white space inside them counts;
white space between other items is ignored.
-/

namespace Peg.Json

open Peg.Expr (literal asciiDigit asciiHexDigit asciiNonzeroDigit charRange repOnce)

/-- The expression that matches a part any number of times. -/
def many (body : Expr) : Expr := .rep body 0 none

/-- A text: its start and then a value. -/
def document : Expr := .seq (.terminal .startOfInput) [.ref "value"]

/-- Any value. -/
def value : Expr :=
  .choice (.ref "object") [.ref "array", .ref "string", .ref "number", .ref "true", .ref "false",
    .ref "null"]

/-- The members of an object in braces. -/
def object : Expr := .seq (literal "\x7b") [.opt (.ref "members"), literal "\x7d"]

/-- One or more members with commas between them. -/
def members : Expr := .seq (.ref "pair") [many (.seq (literal ",") [.ref "pair"])]

/-- A name and a value with a colon between them. -/
def pair : Expr := .seq (.ref "string") [literal ":", .ref "value"]

/-- The elements of an array in brackets. -/
def array : Expr := .seq (literal "[") [.opt (.ref "elements"), literal "]"]

/-- One or more values with commas between them. -/
def elements : Expr := .seq (.ref "value") [many (.seq (literal ",") [.ref "value"])]

/-- The characters of a string in quotes. -/
def string : Expr := .seq (literal "\"") [many (.ref "char"), literal "\""]

/-- An escape for one character, one for a code unit, or a plain character. -/
def char : Expr :=
  .choice
    (.seq (literal "\\")
      [.choice (literal "\"") [literal "\\", literal "/", literal "b", literal "f", literal "n",
        literal "r", literal "t"]])
    [.seq (literal "\\u") [asciiHexDigit, asciiHexDigit, asciiHexDigit, asciiHexDigit],
      .seq (.negative (.choice (literal "\"") [literal "\\", charRange '\x00' '\x1f']))
        [.terminal .any]]

/-- A sign, a whole part without leading zeros, a fraction and an exponent. -/
def number : Expr :=
  .seq (.opt (literal "-"))
    [.choice (literal "0") [.seq asciiNonzeroDigit [many asciiDigit]],
      .opt (.seq (literal ".") [repOnce asciiDigit]),
      .opt (.seq (.terminal (.insensitive "e"))
        [.opt (.choice (literal "+") [literal "-"]), repOnce asciiDigit])]

/-- The characters between tokens. -/
def whiteSpace : Expr :=
  .choice (literal " ") [literal "\t", literal "\r", literal "\n"]

/-- The grammar of JSON texts. -/
def grammar : Grammar := .ofRules [
  ⟨0, "document", .normal, document⟩,
  ⟨1, "value", .normal, value⟩,
  ⟨2, "object", .normal, object⟩,
  ⟨3, "members", .silent, members⟩,
  ⟨4, "pair", .normal, pair⟩,
  ⟨5, "array", .normal, array⟩,
  ⟨6, "elements", .silent, elements⟩,
  ⟨7, "string", .atomic, string⟩,
  ⟨8, "char", .silent, char⟩,
  ⟨9, "number", .atomic, number⟩,
  ⟨10, "true", .normal, literal "true"⟩,
  ⟨11, "false", .normal, literal "false"⟩,
  ⟨12, "null", .normal, literal "null"⟩,
  ⟨13, "WHITESPACE", .silent, whiteSpace⟩]

end Peg.Json
