import Peg.Json.Escape
import Peg.Json.Number

/-!
# JSON texts

The concrete syntax of JSON texts, without regard to any parser: a value with blanks around it,
where blanks may also stand around the brackets, commas and colons of arrays and objects. A syntax
tree holds all the characters of its text, and each part of a tree carries the proof that it is
well-formed, so that the texts of trees are just the JSON texts.
-/
namespace Peg.Json

/-- A piece of a string is a plain character that need not be escaped, a backslash with one of eight
marks, or a backslash with `u` and four hexadecimal digits. -/
def Piece.Valid : Piece → Prop
  | plain c => ' ' ≤ c ∧ c ≠ '"' ∧ c ≠ '\\'
  | short mark meant => shortMeaning? mark = some meant
  | unit a b c d => ∀ digit ∈ [a, b, c, d], (hexValue? digit).isSome = true

namespace Syntax

/-- Whether a character may stand between tokens. -/
def isBlank (c : Char) : Bool := c == ' ' || c == '\t' || c == '\n' || c == '\r'

/-- Characters between tokens. -/
abbrev Blanks : Type := {chars : List Char // ∀ c ∈ chars, isBlank c = true}

/-- Any number of decimal digits. -/
abbrev Digits : Type := {chars : List Char // ∀ c ∈ chars, c.isDigit = true}

/-- At least one decimal digit. -/
abbrev SomeDigits : Type := {digits : Digits // digits.val ≠ []}

/-- A string in quotes. -/
structure Quoted where
  pieces : List Piece
  valid : ∀ piece ∈ pieces, piece.Valid

/-- The whole part of a number: a zero, or digits that do not begin with one. -/
inductive Whole where
  | zero
  | leading (first : Char) (nonzero : '1' ≤ first ∧ first ≤ '9') (rest : Digits)

/-- The exponent of a number. -/
structure Exponent where
  mark : Char
  isMark : isExponentMark mark = true
  sign : Option Char
  isSign : ∀ c ∈ sign, c = '+' ∨ c = '-'
  digits : SomeDigits

structure Number where
  negative : Bool
  whole : Whole
  fraction : Option SomeDigits
  exponent : Option Exponent

/-- A constant. -/
inductive Word where
  | truth (value : Bool)
  | null

mutual

inductive Value where
  | word (word : Word)
  | number (number : Number)
  | string (string : Quoted)
  | emptyArray (inside : Blanks)
  | array (first : Element) (rest : List Element)
  | emptyObject (inside : Blanks)
  | object (first : Member) (rest : List Member)

/-- A value between blanks. -/
inductive Element where
  | mk (before : Blanks) (value : Value) (after : Blanks)

/-- A name and a value, each between blanks. -/
inductive Member where
  | mk (before : Blanks) (name : Quoted) (after : Blanks) (element : Element)

end

/-! ### Characters -/

def Quoted.chars (quoted : Quoted) : List Char :=
  '"' :: (quoted.pieces.flatMap Piece.text ++ ['"'])

def Whole.chars : Whole → List Char
  | zero => ['0']
  | leading first _ rest => first :: rest.val

def Exponent.chars (exponent : Exponent) : List Char :=
  exponent.mark :: (exponent.sign.toList ++ exponent.digits.val.val)

def signChars (negative : Bool) : List Char := if negative then ['-'] else []

def fractionChars : Option SomeDigits → List Char
  | none => []
  | some digits => '.' :: digits.val.val

def exponentChars : Option Exponent → List Char
  | none => []
  | some exponent => exponent.chars

def Number.chars (number : Number) : List Char :=
  signChars number.negative ++ (number.whole.chars ++
    (fractionChars number.fraction ++ exponentChars number.exponent))

def Word.chars : Word → List Char
  | truth true => ['t', 'r', 'u', 'e']
  | truth false => ['f', 'a', 'l', 's', 'e']
  | null => ['n', 'u', 'l', 'l']

mutual

def Value.chars : Value → List Char
  | .word word => word.chars
  | .number number => number.chars
  | .string string => string.chars
  | .emptyArray inside => '[' :: (inside.val ++ [']'])
  | .array first rest => '[' :: (first.chars ++ (Element.moreChars rest ++ [']']))
  | .emptyObject inside => '\x7b' :: (inside.val ++ ['\x7d'])
  | .object first rest => '\x7b' :: (first.chars ++ (Member.moreChars rest ++ ['\x7d']))

def Element.chars : Element → List Char
  | .mk before value after => before.val ++ (value.chars ++ after.val)

def Element.moreChars : List Element → List Char
  | [] => []
  | element :: rest => ',' :: (element.chars ++ Element.moreChars rest)

def Member.chars : Member → List Char
  | .mk before name after element =>
    before.val ++ (name.chars ++ (after.val ++ ':' :: element.chars))

def Member.moreChars : List Member → List Char
  | [] => []
  | member :: rest => ',' :: (member.chars ++ Member.moreChars rest)

end

/-! ### Sizes

Whether no row in a text is longer than a limit allows. What starts a row is not counted if there
has to be one: the first digit of a whole part, the first element of an array, the first member of
an object. An escape counts as one character. -/

def Quoted.Within (most : Nat) (quoted : Quoted) : Prop := quoted.pieces.length ≤ most

def Whole.Within (most : Nat) : Whole → Prop
  | zero => True
  | leading _ _ rest => rest.val.length ≤ most

def Number.Within (most : Nat) (number : Number) : Prop :=
  number.whole.Within most ∧ (∀ digits ∈ number.fraction, digits.val.val.length ≤ most) ∧
    ∀ exponent ∈ number.exponent, exponent.digits.val.val.length ≤ most

mutual

def Value.Within (most : Nat) : Value → Prop
  | .word _ | .emptyArray _ | .emptyObject _ => True
  | .number number => number.Within most
  | .string string => string.Within most
  | .array first rest => rest.length ≤ most ∧ first.Within most ∧ Element.AllWithin most rest
  | .object first rest => rest.length ≤ most ∧ first.Within most ∧ Member.AllWithin most rest

def Element.Within (most : Nat) : Element → Prop
  | .mk _ value _ => value.Within most

def Element.AllWithin (most : Nat) : List Element → Prop
  | [] => True
  | element :: rest => element.Within most ∧ Element.AllWithin most rest

def Member.Within (most : Nat) : Member → Prop
  | .mk _ name _ element => name.Within most ∧ element.Within most

def Member.AllWithin (most : Nat) : List Member → Prop
  | [] => True
  | member :: rest => member.Within most ∧ Member.AllWithin most rest

end

/-- A JSON text. -/
abbrev Document : Type := Element

theorem nonzero_isDigit {c : Char} (nonzero : '1' ≤ c ∧ c ≤ '9') : c.isDigit = true := by
  have least : '0' ≤ c := Char.le_trans (by decide) nonzero.1
  exact Bool.and_eq_true_iff.mpr ⟨decide_eq_true least, decide_eq_true nonzero.2⟩

theorem Whole.isDigit (whole : Whole) : ∀ c ∈ whole.chars, c.isDigit = true := by
  cases whole with
  | zero => exact List.forall_mem_singleton.mpr rfl
  | leading first nonzero rest =>
    exact List.forall_mem_cons.mpr ⟨nonzero_isDigit nonzero, rest.property⟩

theorem Element.moreChars_eq (rest : List Element) :
    moreChars rest = (rest.map fun element => ',' :: element.chars).flatten := by
  induction rest with
  | nil => simp [moreChars]
  | cons element rest ih => simp [moreChars, ih]

theorem Element.allWithin_iff {most : Nat} {rest : List Element} :
    AllWithin most rest ↔ ∀ element ∈ rest, element.Within most := by
  induction rest with
  | nil => simp [AllWithin]
  | cons element rest ih => simp [AllWithin, ih]

theorem Member.moreChars_eq (rest : List Member) :
    moreChars rest = (rest.map fun member => ',' :: member.chars).flatten := by
  induction rest with
  | nil => simp [moreChars]
  | cons member rest ih => simp [moreChars, ih]

theorem Member.allWithin_iff {most : Nat} {rest : List Member} :
    AllWithin most rest ↔ ∀ member ∈ rest, member.Within most := by
  induction rest with
  | nil => simp [AllWithin]
  | cons member rest ih => simp [AllWithin, ih]

end Syntax

end Peg.Json
