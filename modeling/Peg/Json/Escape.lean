/-!
The body of a JSON string as a row of pieces: plain characters, escapes of two characters, and
escapes of a code unit by four hexadecimal digits. Each piece stands for one code point.
-/

namespace Peg.Json

/-- What is wrong with the body of a string. -/
inductive EscapeError where
  /-- A backslash ends the body. -/
  | truncated
  /-- No escape has this character after the backslash. -/
  | unknown (c : Char)
  /-- Four hexadecimal digits were to follow. -/
  | notHexadecimal
deriving DecidableEq

/-- The wording of an error. -/
def EscapeError.message : EscapeError → String
  | truncated => "escape without a character"
  | unknown c => "unknown escape " ++ c.toString
  | notHexadecimal => "escape without four hexadecimal digits"

/-- A piece of the body of a string. -/
inductive Piece where
  /-- A character that stands for itself. -/
  | plain (c : Char)
  /-- A backslash, a character, and the character that the two stand for. -/
  | short (mark meant : Char)
  /-- A code unit, by its digits. -/
  | unit (a b c d : Char)
deriving DecidableEq

/-- The value of a hexadecimal digit in either case. -/
def hexValue? (c : Char) : Option Nat :=
  if '0' ≤ c ∧ c ≤ '9' then some (c.toNat - '0'.toNat)
  else if 'a' ≤ c ∧ c ≤ 'f' then some (c.toNat - 'a'.toNat + 10)
  else if 'A' ≤ c ∧ c ≤ 'F' then some (c.toNat - 'A'.toNat + 10)
  else none

/-- The character that a backslash and a character stand for. -/
def shortMeaning? (mark : Char) : Option Char :=
  match mark with
  | '"' => some '"'
  | '\\' => some '\\'
  | '/' => some '/'
  | 'b' => some '\x08'
  | 'f' => some '\x0c'
  | 'n' => some '\n'
  | 'r' => some '\r'
  | 't' => some '\t'
  | _ => none

namespace Piece

/-- The characters of a piece. -/
def text : Piece → List Char
  | plain c => [c]
  | short mark _ => ['\\', mark]
  | unit a b c d => ['\\', 'u', a, b, c, d]

/-- The code point that a piece stands for. -/
def codePoint : Piece → Nat
  | plain c => c.toNat
  | short _ meant => meant.toNat
  | unit a b c d => [a, b, c, d].foldl (fun value digit => 16 * value + (hexValue? digit).getD 0) 0

end Piece

/-- Cuts the body of a string into pieces. -/
def pieces : List Char → Except EscapeError (List Piece)
  | [] => .ok []
  | '\\' :: 'u' :: a :: b :: c :: d :: rest =>
    if [a, b, c, d].all fun digit => (hexValue? digit).isSome then
      (Piece.unit a b c d :: ·) <$> pieces rest
    else .error .notHexadecimal
  | '\\' :: mark :: rest =>
    match shortMeaning? mark with
    | some meant => (Piece.short mark meant :: ·) <$> pieces rest
    | none => .error (if mark = 'u' then .notHexadecimal else .unknown mark)
  | ['\\'] => .error .truncated
  | c :: rest => (Piece.plain c :: ·) <$> pieces rest

/-- The code points that a string in quotes stands for. -/
def unescape (quoted : String) : Except EscapeError (List Nat) :=
  (·.map Piece.codePoint) <$> pieces (quoted.toList.drop 1).dropLast

end Peg.Json
