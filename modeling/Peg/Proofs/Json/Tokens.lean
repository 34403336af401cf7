import Peg.Json.Rules
import Peg.Proofs.Json.Syntax
import Peg.Proofs.Scan.Classes
import Peg.Proofs.Text.Lowercase
import Mathlib.Logic.Basic

/-!
# Strings and numbers of JSON texts

What the atomic rules of the grammar recognize. The parts of a number are told apart by what they
begin with. A row of digits that is longer than the limit allows does not match, and an optional
part with such a row is left out. The number then ends in front of that part, which may not follow a
number, so that a text with such a row is never taken as a whole.
-/
namespace Peg.Json

open Scan Scan.Recognizes Syntax
open Intake (must_append)

variable {env : Env} {size : Nat}

/-! ### Strings -/

/-- The characters of a piece of a string. -/
def IsPiece (text : List Char) : Prop := ∃ piece : Piece, piece.Valid ∧ piece.text = text

theorem mem_marks (c : Char) :
    decide (c ∈ ['"', '\\', '/', 'b', 'f', 'n', 'r', 't']) = (shortMeaning? c).isSome := by
  unfold shortMeaning?
  split <;> simp_all

theorem in_hex_ranges (c : Char) :
    ('0' ≤ c && c ≤ '9' || ('a' ≤ c && c ≤ 'f' || 'A' ≤ c && c ≤ 'F')) =
      (hexValue? c).isSome := by
  unfold hexValue?
  split
  · simp_all
  · split
    · simp_all
    · split <;> simp_all

theorem mark_takesOne : (Scan.expr env true (.choice (.literal "\"") [.literal "\\",
    .literal "/", .literal "b", .literal "f", .literal "n", .literal "r", .literal "t"])).TakesOne
      env fun c => (shortMeaning? c).isSome :=
  (choice_literals '"' ['\\', '/', 'b', 'f', 'n', 'r', 't']).congr mem_marks

theorem hexDigit_takesOne : (Scan.expr env true Expr.asciiHexDigit).TakesOne env
    fun c => (hexValue? c).isSome := by
  refine ((charRange_takesOne '0' '9').choice ((charRange_takesOne 'a' 'f').alternatives_cons
    ((charRange_takesOne 'A' 'F').alternatives_cons .alternatives_nil))).congr fun c => ?_
  rw [Bool.or_false]
  exact in_hex_ranges c

theorem short_recognizes : Recognizes env size (Scan.expr env true (.seq (.literal "\\")
    [.choice (.literal "\"") [.literal "\\", .literal "/", .literal "b", .literal "f",
      .literal "n", .literal "r", .literal "t"]]))
    (.always fun text => ∃ mark, (shortMeaning? mark).isSome = true ∧ ['\\', mark] = text) := by
  have row : Recognizes env size _ _ :=
    seq (literal_recognizes "\\" size) (items_atomic_last (mark_takesOne.recognizes size))
  simp only [Intake.always_followedBy] at row
  exact row.always_congr fun text => by simp

theorem unit_recognizes : Recognizes env size (Scan.expr env true (.seq (.literal "\\u")
    [Expr.asciiHexDigit, Expr.asciiHexDigit, Expr.asciiHexDigit, Expr.asciiHexDigit]))
    (.always fun text => ∃ a b c d, (∀ digit ∈ [a, b, c, d], (hexValue? digit).isSome = true) ∧
      ['\\', 'u', a, b, c, d] = text) := by
  have digit : Recognizes env size _ _ := hexDigit_takesOne.recognizes size
  have row : Recognizes env size _ _ := seq (literal_recognizes "\\u" size)
    (items_atomic digit (items_atomic digit (items_atomic digit (items_atomic_last digit))))
  simp only [Intake.always_followedBy] at row
  refine row.always_congr fun text => ?_
  constructor
  · rintro ⟨_, _, rfl, ⟨_, _, ⟨a, hexA, rfl⟩, ⟨_, _, ⟨b, hexB, rfl⟩, ⟨_, _, ⟨c, hexC, rfl⟩,
      ⟨d, hexD, rfl⟩, rfl⟩, rfl⟩, rfl⟩, rfl⟩
    exact ⟨a, b, c, d, by simp [hexA, hexB, hexC, hexD], rfl⟩
  · rintro ⟨a, b, c, d, digits, rfl⟩
    simp only [List.forall_mem_cons] at digits
    obtain ⟨hexA, hexB, hexC, hexD, _⟩ := digits
    exact ⟨_, _, rfl, ⟨_, _, ⟨a, hexA, rfl⟩, ⟨_, _, ⟨b, hexB, rfl⟩, ⟨_, _, ⟨c, hexC, rfl⟩,
      ⟨d, hexD, rfl⟩, rfl⟩, rfl⟩, rfl⟩, rfl⟩

/-- What comes after the control characters begins with the space. -/
theorem control_lt_iff {c : Char} : '\x1f' < c ↔ ' ' ≤ c := by
  have le_iff : ∀ a b : Char, a ≤ b ↔ a.toNat ≤ b.toNat := fun a b => UInt32.le_iff_toNat_le
  have low : '\x1f'.toNat = 31 := rfl
  have high : ' '.toNat = 32 := rfl
  rw [← Char.not_le, le_iff, le_iff]
  omega

/-- Whether a character may stand in a string as it is. -/
def isPlain (c : Char) : Bool := ' ' ≤ c && c ≠ '"' && c ≠ '\\'

theorem special_takesOne : (Scan.expr env true
    (.choice (.literal "\"") [.literal "\\", Expr.charRange '\x00' '\x1f'])).TakesOne env
      fun c => !isPlain c := by
  refine ((literal_char_takesOne '"').choice ((literal_char_takesOne '\\').alternatives_cons
    ((charRange_takesOne '\x00' '\x1f').alternatives_cons .alternatives_nil))).congr fun c => ?_
  have least : '\x00' ≤ c := Nat.zero_le _
  have control : c ≤ '\x1f' ↔ ¬ (' ' ≤ c) := by rw [← control_lt_iff, Char.not_lt]
  grind [isPlain]

theorem plain_takesOne : (Scan.expr env true
    (.seq (.negative (.choice (.literal "\"") [.literal "\\", Expr.charRange '\x00' '\x1f']))
      [.terminal .any])).TakesOne env isPlain :=
  (special_takesOne.except rfl).congr fun c => Bool.not_not (isPlain c)

theorem plain_recognizes : Recognizes env size (Scan.expr env true
    (.seq (.negative (.choice (.literal "\"") [.literal "\\", Expr.charRange '\x00' '\x1f']))
      [.terminal .any]))
    (.always fun text => ∃ c, (' ' ≤ c ∧ c ≠ '"' ∧ c ≠ '\\') ∧ [c] = text) :=
  (plain_takesOne.recognizes size).always_congr fun text => by simp [isPlain, and_assoc]

theorem isPiece_iff {text : List Char} : IsPiece text ↔
    (∃ mark, (shortMeaning? mark).isSome = true ∧ ['\\', mark] = text) ∨
      (∃ a b c d, (∀ digit ∈ [a, b, c, d], (hexValue? digit).isSome = true) ∧
        ['\\', 'u', a, b, c, d] = text) ∨ ∃ c, (' ' ≤ c ∧ c ≠ '"' ∧ c ≠ '\\') ∧ [c] = text := by
  constructor
  · rintro ⟨piece, valid, rfl⟩
    cases piece with
    | short mark meant => exact .inl ⟨mark, Option.isSome_iff_exists.mpr ⟨meant, valid⟩, rfl⟩
    | unit a b c d => exact .inr (.inl ⟨a, b, c, d, valid, rfl⟩)
    | plain c => exact .inr (.inr ⟨c, valid, rfl⟩)
  · rintro (⟨mark, known, rfl⟩ | ⟨a, b, c, d, digits, rfl⟩ | ⟨c, fine, rfl⟩)
    · obtain ⟨meant, known⟩ := Option.isSome_iff_exists.mp known
      exact ⟨.short mark meant, known, rfl⟩
    · exact ⟨.unit a b c d, digits, rfl⟩
    · exact ⟨.plain c, fine, rfl⟩

/-- A piece of a string, of whichever kind. -/
theorem char_recognizes : Recognizes env size (Scan.expr env true char) (.always IsPiece) := by
  refine (choice short_recognizes (alternatives_cons unit_recognizes
    (alternatives_cons plain_recognizes alternatives_nil))).weaken ?_ ?_
  · rintro text (short | unit | plain | impossible)
    · exact isPiece_iff.mpr (.inl short)
    · exact isPiece_iff.mpr (.inr (.inl unit))
    · exact isPiece_iff.mpr (.inr (.inr plain))
    · exact impossible.elim
  · rintro text rest ⟨isPiece, _⟩
    rcases isPiece_iff.mp isPiece with short | ⟨a, b, c, d, digits, rfl⟩ | ⟨c, fine, rfl⟩
    · exact .inl ⟨short, trivial⟩
    · -- The letter of a code unit is none of the marks of short escapes.
      refine .inr ⟨?_, .inl ⟨⟨a, b, c, d, digits, rfl⟩, trivial⟩⟩
      rintro _ tail ⟨mark, known, rfl⟩ front
      cases (List.cons.inj (List.cons.inj front).2).1
      cases known
    · -- A backslash is not plain, so that there is no escape.
      refine .inr ⟨?_, .inr ⟨?_, .inl ⟨⟨c, fine, rfl⟩, trivial⟩⟩⟩
      · rintro _ tail ⟨mark, known, rfl⟩ front
        exact fine.2.2 (List.cons.inj front).1
      · rintro _ tail ⟨_, _, _, _, _, rfl⟩ front
        exact fine.2.2 (List.cons.inj front).1

/-- The text between the quotes of a string that keeps to a limit. -/
def IsPieces (limit : Option Nat) (text : List Char) : Prop :=
  ∃ pieces : List Piece, (∀ piece ∈ pieces, piece.Valid) ∧ Intake.Allows limit pieces.length ∧
    pieces.flatMap Piece.text = text

/-- The text of a string that keeps to a limit. -/
def IsString (limit : Option Nat) (text : List Char) : Prop :=
  ∃ quoted : Quoted, (∀ most, limit = some most → quoted.Within most) ∧ quoted.chars = text

theorem IsPiece.ne_quote {text : List Char} (piece : IsPiece text) (tail rest : List Char) :
    '"' :: rest ≠ text ++ tail := by
  obtain ⟨piece, valid, rfl⟩ := piece
  intro front
  cases piece with
  | short | unit => cases front
  | plain c => exact valid.2.1 (List.cons.inj front).1.symm

theorem IsPiece.ne_nil {text : List Char} (piece : IsPiece text) : text ≠ [] := by
  obtain ⟨piece, _, rfl⟩ := piece
  cases piece <;> simp [Piece.text]

/-! ### Numbers -/

/-- The whole part of a number that keeps to a limit. -/
def IsWhole (limit : Option Nat) (text : List Char) : Prop :=
  ∃ whole : Whole, (∀ most, limit = some most → whole.Within most) ∧ whole.chars = text

/-- A row of digits that keeps to a limit, with at least so many of them. -/
def IsDigits (min : Nat) (limit : Option Nat) (text : List Char) : Prop :=
  (∀ c ∈ text, c.isDigit = true) ∧ min ≤ text.length ∧ Intake.Allows limit text.length

/-- The fraction of a number, or nothing. -/
def IsFraction (limit : Option Nat) (text : List Char) : Prop :=
  ∃ fraction : Option SomeDigits, (∀ digits ∈ fraction, Intake.Allows limit digits.val.val.length) ∧
    fractionChars fraction = text

/-- The sign of an exponent, or nothing. -/
def IsSign (text : List Char) : Prop :=
  ∃ sign : Option Char, (∀ c ∈ sign, c = '+' ∨ c = '-') ∧ sign.toList = text

/-- The exponent of a number, or nothing. -/
def IsExponent (limit : Option Nat) (text : List Char) : Prop :=
  ∃ exponent : Option Exponent,
    (∀ part ∈ exponent, Intake.Allows limit part.digits.val.val.length) ∧
      exponentChars exponent = text

/-- The text of a number that keeps to a limit. -/
def IsNumber (limit : Option Nat) (text : List Char) : Prop :=
  ∃ number : Number, (∀ most, limit = some most → number.Within most) ∧ number.chars = text

/-- Whether a number that ended before the character would have gone on with it. -/
def isNumeric (c : Char) : Bool := c.isDigit || c == '.' || isExponentMark c

theorem digit_takesOne :
    (Scan.expr env true Expr.asciiDigit).TakesOne env Char.isDigit :=
  (charRange_takesOne '0' '9').congr fun _ => rfl

theorem nonzero_takesOne :
    (Scan.expr env true Expr.asciiNonzeroDigit).TakesOne env fun c => '1' ≤ c && c ≤ '9' :=
  charRange_takesOne '1' '9'

theorem digits_recognizes (min : Nat) :
    Recognizes env size (Scan.expr env true (.rep Expr.asciiDigit min none))
      (.of (IsDigits min env.repeatLimit) (Spares Char.isDigit)) :=
  digit_takesOne.rep size min

theorem isWhole_iff {limit : Option Nat} {text : List Char} : IsWhole limit text ↔
    text = ['0'] ∨ ∃ first rest, ('1' ≤ first ∧ first ≤ '9') ∧ IsDigits 0 limit rest ∧
      first :: rest = text := by
  constructor
  · rintro ⟨whole, within, rfl⟩
    cases whole with
    | zero => exact .inl rfl
    | leading first nonzero rest =>
      exact .inr ⟨first, _, nonzero, ⟨rest.property, Nat.zero_le _, within⟩, rfl⟩
  · rintro (rfl | ⟨first, rest, nonzero, ⟨digits, _, within⟩, rfl⟩)
    · exact ⟨.zero, fun _ _ => trivial, rfl⟩
    · exact ⟨.leading first nonzero ⟨rest, digits⟩, within, rfl⟩

theorem isSomeDigits_iff {limit : Option Nat} {text : List Char} : IsDigits 1 limit text ↔
    ∃ digits : SomeDigits, Intake.Allows limit digits.val.val.length ∧ digits.val.val = text := by
  constructor
  · rintro ⟨digits, some, within⟩
    exact ⟨⟨⟨text, digits⟩, List.length_pos_iff.mp some⟩, within, rfl⟩
  · rintro ⟨digits, within, rfl⟩
    exact ⟨digits.val.property, List.length_pos_iff.mpr digits.property, within⟩

theorem isFraction_iff {limit : Option Nat} {text : List Char} : IsFraction limit text ↔
    (∃ rest, IsDigits 1 limit rest ∧ '.' :: rest = text) ∨ text = [] := by
  simp only [isSomeDigits_iff]
  constructor
  · rintro ⟨fraction, within, rfl⟩
    cases fraction with
    | none => exact .inr rfl
    | some digits => exact .inl ⟨_, ⟨digits, within digits rfl, rfl⟩, rfl⟩
  · rintro (⟨_, ⟨digits, within, rfl⟩, rfl⟩ | rfl)
    · exact ⟨some digits, by simpa using within, rfl⟩
    · exact ⟨none, by simp, rfl⟩

theorem isExponent_iff {limit : Option Nat} {text : List Char} : IsExponent limit text ↔
    (∃ mark sign rest, isExponentMark mark = true ∧ IsSign sign ∧ IsDigits 1 limit rest ∧
      mark :: (sign ++ rest) = text) ∨ text = [] := by
  simp only [isSomeDigits_iff]
  constructor
  · rintro ⟨exponent, within, rfl⟩
    cases exponent with
    | none => exact .inr rfl
    | some exponent =>
      exact .inl ⟨exponent.mark, _, _, exponent.isMark, ⟨exponent.sign, exponent.isSign, rfl⟩,
        ⟨exponent.digits, within exponent rfl, rfl⟩, rfl⟩
  · rintro (⟨mark, _, _, isMark, ⟨sign, isSign, rfl⟩, ⟨digits, within, rfl⟩, rfl⟩ | rfl)
    · exact ⟨some ⟨mark, isMark, sign, isSign, digits⟩, by simpa using within, rfl⟩
    · exact ⟨none, by simp, rfl⟩

/-- A number is made of its four parts. -/
theorem isNumber_iff {limit : Option Nat} {text : List Char} : IsNumber limit text ↔
    ∃ sign whole fraction exponent, (∃ negative, signChars negative = sign) ∧
      IsWhole limit whole ∧ IsFraction limit fraction ∧ IsExponent limit exponent ∧
        sign ++ (whole ++ (fraction ++ exponent)) = text := by
  constructor
  · rintro ⟨⟨negative, whole, fraction, exponent⟩, within, rfl⟩
    refine ⟨_, _, _, _, ⟨negative, rfl⟩, ⟨whole, ?_, rfl⟩, ⟨fraction, ?_, rfl⟩, ⟨exponent, ?_, rfl⟩,
      rfl⟩
    · exact fun most limited => (within most limited).1
    · exact fun digits among most limited => (within most limited).2.1 digits among
    · exact fun part among most limited => (within most limited).2.2 part among
  · rintro ⟨_, _, _, _, ⟨negative, rfl⟩, ⟨whole, short, rfl⟩, ⟨fraction, few, rfl⟩,
      ⟨exponent, small, rfl⟩, rfl⟩
    refine ⟨⟨negative, whole, fraction, exponent⟩, fun most limited => ⟨?_, ?_, ?_⟩, rfl⟩
    · exact short most limited
    · exact fun digits among => few digits among most limited
    · exact fun part among => small part among most limited

theorem leading_recognizes : Recognizes env size
    (Scan.expr env true (.seq Expr.asciiNonzeroDigit [many Expr.asciiDigit]))
    ((Intake.always fun text => ∃ c, ('1' ≤ c && c ≤ '9') = true ∧ [c] = text).followedBy
      (.of (IsDigits 0 env.repeatLimit) (Spares Char.isDigit))) :=
  seq (nonzero_takesOne.recognizes size) (items_atomic_last (digits_recognizes 0))

theorem whole_recognizes : Recognizes env size
    (Scan.expr env true
      (.choice (.literal "0") [.seq Expr.asciiNonzeroDigit [many Expr.asciiDigit]]))
    (.of (IsWhole env.repeatLimit) (Spares Char.isDigit)) := by
  refine (choice (literal_recognizes "0" size)
    (alternatives_cons leading_recognizes alternatives_nil)).weaken ?_ ?_
  · rintro text (rfl | ⟨_, rest, ⟨c, nonzero, rfl⟩, digits, rfl⟩ | none)
    · exact isWhole_iff.mpr (.inl rfl)
    · exact isWhole_iff.mpr (.inr ⟨c, rest, by simpa using nonzero, digits, rfl⟩)
    · exact none.elim
  · rintro text rest ⟨isWhole, spares⟩
    rcases isWhole_iff.mp isWhole with rfl | ⟨c, tail, nonzero, digits, rfl⟩
    · exact .inl ⟨rfl, trivial⟩
    · refine .inr ⟨?_, .inl ?_⟩
      · rintro _ tail rfl front
        cases (List.cons.inj front).1
        exact absurd nonzero.1 (by decide)
      · change Intake.must _ ([c] ++ tail) rest
        exact must_append ⟨⟨c, by simpa using nonzero, rfl⟩, trivial⟩ ⟨digits, spares⟩

theorem fraction_recognizes : Recognizes env size
    (Scan.expr env true (.opt (.seq (.literal ".") [Expr.repOnce Expr.asciiDigit])))
    (.of (IsFraction env.repeatLimit) (Spares fun c => c.isDigit || c == '.')) := by
  have part : Recognizes env size _ _ :=
    seq (literal_recognizes "." size) (items_atomic_last (digits_recognizes 1))
  refine (opt part).weaken ?_ ?_
  · rintro text (⟨_, rest, rfl, digits, rfl⟩ | rfl)
    · exact isFraction_iff.mpr (.inl ⟨rest, digits, rfl⟩)
    · exact isFraction_iff.mpr (.inr rfl)
  · rintro text rest ⟨isFraction, spares⟩
    rcases isFraction_iff.mp isFraction with ⟨digits, row, rfl⟩ | rfl
    · have spared : Spares Char.isDigit rest := spares.mono fun c digit => by simp [digit]
      left
      change Intake.must _ (['.'] ++ digits) rest
      exact must_append ⟨rfl, trivial⟩ ⟨row, spared⟩
    · -- No fraction can be taken, as the rest does not begin with a dot.
      refine .inr ⟨?_, rfl, trivial⟩
      rintro _ _ ⟨_, _, rfl, _, rfl⟩ front
      cases spares '.' _ front

theorem lowers_to_e (c : Char) :
    decide (Text.lower [c] = Text.lower ['e']) = isExponentMark c := by
  simp [Text.lower_eq_lower_e, isExponentMark, Bool.beq_eq_decide_eq]

theorem mark_of_exponent_takesOne :
    (Scan.expr env true (.terminal (.insensitive "e"))).TakesOne env isExponentMark :=
  (insensitive_takesOne rfl).congr lowers_to_e

theorem isSign_iff {text : List Char} :
    IsSign text ↔ (∃ c, decide (c ∈ ['+', '-']) = true ∧ [c] = text) ∨ text = [] := by
  constructor
  · rintro ⟨sign, isSign, rfl⟩
    cases sign with
    | none => exact .inr rfl
    | some c => exact .inl ⟨c, by simpa using isSign, rfl⟩
  · rintro (⟨c, isSign, rfl⟩ | rfl)
    · exact ⟨some c, by simpa using isSign, rfl⟩
    · exact ⟨none, by simp, rfl⟩

theorem sign_recognizes : Recognizes env size
    (Scan.expr env true (.opt (.choice (.literal "+") [.literal "-"])))
    (.of IsSign (Spares fun c => c == '+' || c == '-')) := by
  refine (opt ((choice_literals '+' ['-']).recognizes size)).weaken ?_ ?_
  · exact fun text => isSign_iff.mpr
  · rintro text rest ⟨isSign, spares⟩
    rcases isSign_iff.mp isSign with one | rfl
    · exact .inl ⟨one, trivial⟩
    · refine .inr ⟨?_, rfl, trivial⟩
      rintro _ tail ⟨c, isSign, rfl⟩ front
      have refused := spares c tail front
      simp_all

theorem digit_ne_sign {c : Char} (digit : c.isDigit = true) : (c == '+' || c == '-') = false := by
  rw [Bool.eq_false_iff]
  intro sign
  rcases Bool.or_eq_true_iff.mp sign with plus | minus
  · cases beq_iff_eq.mp plus
    cases digit
  · cases beq_iff_eq.mp minus
    cases digit

/-- Digits begin with nothing that the class of no digit accepts. -/
theorem digits_spares {accept : Char → Bool} {limit : Option Nat} {digits : List Char}
    (refused : ∀ c, c.isDigit = true → accept c = false) (row : IsDigits 1 limit digits)
    (rest : List Char) : Spares accept (digits ++ rest) := by
  obtain ⟨all, some, _⟩ := row
  cases digits with
  | nil => cases some
  | cons c more => exact .cons (refused c (all c List.mem_cons_self)) _

theorem exponent_recognizes : Recognizes env size
    (Scan.expr env true (.opt (.seq (.terminal (.insensitive "e"))
      [.opt (.choice (.literal "+") [.literal "-"]), Expr.repOnce Expr.asciiDigit])))
    (.of (IsExponent env.repeatLimit) (Spares fun c => c.isDigit || isExponentMark c)) := by
  have part : Recognizes env size _ _ := seq (mark_of_exponent_takesOne.recognizes size)
    (items_atomic sign_recognizes (items_atomic_last (digits_recognizes 1)))
  refine (opt part).weaken ?_ ?_
  · rintro text (⟨_, _, ⟨mark, isMark, rfl⟩, ⟨sign, digits, isSign, row, rfl⟩, rfl⟩ | rfl)
    · exact isExponent_iff.mpr (.inl ⟨mark, sign, digits, isMark, isSign, row, rfl⟩)
    · exact isExponent_iff.mpr (.inr rfl)
  · rintro text rest ⟨isExponent, spares⟩
    rcases isExponent_iff.mp isExponent with ⟨mark, sign, digits, isMark, isSign, row, rfl⟩ | rfl
    · have spared : Spares Char.isDigit rest := spares.mono fun c digit => by simp [digit]
      have signed : Spares (fun c => c == '+' || c == '-') (digits ++ rest) :=
        digits_spares (fun _ => digit_ne_sign) row rest
      left
      change Intake.must _ ([mark] ++ (sign ++ digits)) rest
      exact must_append ⟨⟨mark, isMark, rfl⟩, trivial⟩
        (must_append ⟨isSign, signed⟩ ⟨row, spared⟩)
    · -- No exponent can be taken, as the rest does not begin with a mark.
      refine .inr ⟨?_, rfl, trivial⟩
      rintro _ _ ⟨_, _, ⟨mark, isMark, rfl⟩, _, rfl⟩ front
      have refused := spares mark _ front
      simp [isMark] at refused

theorem isMinus_iff {text : List Char} :
    (∃ negative, signChars negative = text) ↔ text = ['-'] ∨ text = [] := by
  rw [Bool.exists_bool, or_comm]
  exact or_congr eq_comm eq_comm

theorem minus_recognizes : Recognizes env size (Scan.expr env true (.opt (.literal "-")))
    (.of (fun text => ∃ negative, signChars negative = text) (Spares (· == '-'))) := by
  refine (opt (literal_recognizes "-" size)).weaken ?_ ?_
  · exact fun text => isMinus_iff.mpr
  · rintro text rest ⟨isMinus, spares⟩
    rcases isMinus_iff.mp isMinus with rfl | rfl
    · exact .inl ⟨rfl, trivial⟩
    · refine .inr ⟨?_, rfl, trivial⟩
      rintro _ tail rfl front
      cases spares '-' tail front

/-! What a part of a number begins with decides that the part before it has come to its end. -/

theorem whole_spares {accept : Char → Bool} {limit : Option Nat} {whole : List Char}
    (refused : ∀ c, c.isDigit = true → accept c = false) (isWhole : IsWhole limit whole)
    (rest : List Char) : Spares accept (whole ++ rest) := by
  rcases isWhole_iff.mp isWhole with rfl | ⟨first, tail, nonzero, _, rfl⟩
  · exact .cons (refused '0' rfl) rest
  · exact .cons (refused first (nonzero_isDigit nonzero)) _

theorem fraction_spares {accept : Char → Bool} {limit : Option Nat} {fraction : List Char}
    (refused : accept '.' = false) (isFraction : IsFraction limit fraction) {rest : List Char}
    (spares : Spares accept rest) : Spares accept (fraction ++ rest) := by
  rcases isFraction_iff.mp isFraction with ⟨digits, _, rfl⟩ | rfl
  · exact .cons refused _
  · exact spares

theorem exponent_spares {accept : Char → Bool} {limit : Option Nat} {exponent : List Char}
    (refused : ∀ c, isExponentMark c = true → accept c = false)
    (isExponent : IsExponent limit exponent) {rest : List Char} (spares : Spares accept rest) :
    Spares accept (exponent ++ rest) := by
  rcases isExponent_iff.mp isExponent with ⟨mark, _, _, isMark, _, _, rfl⟩ | rfl
  · exact .cons (refused mark isMark) _
  · exact spares

theorem mark_not_digit {c : Char} (mark : isExponentMark c = true) : c.isDigit = false := by
  rcases Bool.or_eq_true_iff.mp mark with lower | upper
  · cases beq_iff_eq.mp lower
    rfl
  · cases beq_iff_eq.mp upper
    rfl

theorem mark_ne_dot {c : Char} (mark : isExponentMark c = true) :
    (c.isDigit || c == '.') = false := by
  rw [mark_not_digit mark, Bool.false_or, Bool.eq_false_iff]
  intro dot
  cases beq_iff_eq.mp dot
  cases mark

theorem digit_ne_minus {c : Char} (digit : c.isDigit = true) : (c == '-') = false :=
  (Bool.or_eq_false_iff.mp (digit_ne_sign digit)).2

/-- The parts of a number, one after the other. -/
theorem parts_recognizes : Recognizes env size (Scan.expr env true number)
    (.of (IsNumber env.repeatLimit) (Spares isNumeric)) := by
  refine (seq minus_recognizes (items_atomic whole_recognizes (items_atomic fraction_recognizes
    (items_atomic_last exponent_recognizes)))).weaken ?_ ?_
  · rintro text ⟨sign, _, isSign, ⟨whole, _, isWhole, ⟨fraction, exponent, isFraction, isExponent,
      rfl⟩, rfl⟩, rfl⟩
    exact isNumber_iff.mpr ⟨sign, whole, fraction, exponent, isSign, isWhole, isFraction,
      isExponent, rfl⟩
  · rintro text rest ⟨isNumber, spares⟩
    obtain ⟨sign, whole, fraction, exponent, isSign, isWhole, isFraction, isExponent, rfl⟩ :=
      isNumber_iff.mp isNumber
    -- Each part ends where the next one that there is begins.
    have afterExponent : Spares (fun c => c.isDigit || isExponentMark c) rest :=
      spares.mono fun c => by grind [isNumeric]
    have afterFraction : Spares (fun c => c.isDigit || c == '.') (exponent ++ rest) :=
      exponent_spares (fun _ => mark_ne_dot) isExponent (spares.mono fun c => by grind [isNumeric])
    have afterWhole : Spares Char.isDigit (fraction ++ (exponent ++ rest)) :=
      fraction_spares rfl isFraction (afterFraction.mono fun c digit => by simp [digit])
    have afterSign : Spares (· == '-') (whole ++ (fraction ++ (exponent ++ rest))) :=
      whole_spares (fun _ => digit_ne_minus) isWhole _
    rw [← List.append_assoc] at afterWhole
    rw [← List.append_assoc fraction, ← List.append_assoc] at afterSign
    exact must_append ⟨isSign, afterSign⟩ (must_append ⟨isWhole, afterWhole⟩
      (must_append ⟨isFraction, afterFraction⟩ ⟨isExponent, afterExponent⟩))

section Rules

variable (rules : env.rules = grammar.table)

include rules

theorem defined {name : String} {target : Expr} (found : grammar.table.lookup name = some target) :
    env.rules.lookup name = some target := by rwa [rules]

/-- Pieces have to be taken in front of the closing quote. -/
theorem chars_recognizes : Recognizes env size (Scan.expr env true (many (.ref "char")))
    (.of (IsPieces env.repeatLimit) fun rest => ∃ tail, '"' :: tail = rest) := by
  have charRule : env.rules.lookup "char" = some (.rule 8 "char" .silent char) :=
    defined rules rfl
  have chars : Recognizes env size (Scan.expr env true (many (.ref "char"))) _ :=
    rep (fun _ => IsPiece.ne_nil) (ref charRule (rule char_recognizes)) gap_atomic
  refine chars.weaken ?_ ?_
  · rintro text ⟨items, each, _, within, rfl⟩
    -- Inside a string nothing is skipped, so that the matches are the pieces.
    have single : ∀ item ∈ items, ∃ piece : Piece, piece.Valid ∧ piece.text = item := by
      intro item among
      obtain ⟨_, _, piece, rfl, rfl⟩ := each item among
      rwa [List.append_nil]
    obtain ⟨pieces, valid, rfl⟩ := Intake.exists_map single
    rw [List.length_map, Nat.zero_add] at within
    exact ⟨pieces, valid, within, List.flatMap_def⟩
  · rintro text rest ⟨⟨pieces, valid, within, rfl⟩, tail, rfl⟩
    refine ⟨pieces.map Piece.text, ?_, Nat.zero_le _, ?_, ?_, ?_⟩
    · refine Intake.mustEach_of_forall (List.forall_mem_map.mpr fun piece among tail => ?_) _
      exact ⟨piece.text, [], ⟨⟨piece, valid piece among, rfl⟩, trivial⟩, ⟨rfl, trivial⟩,
        List.append_nil _⟩
    · rwa [List.length_map, Nat.zero_add]
    · exact fun text more piece => IsPiece.ne_quote piece more _
    · rw [List.flatMap_def]

omit rules in
theorem isString_iff {limit : Option Nat} {text : List Char} : IsString limit text ↔
    ∃ inside, IsPieces limit inside ∧ '"' :: (inside ++ ['"']) = text := by
  constructor
  · rintro ⟨⟨pieces, valid⟩, within, rfl⟩
    exact ⟨_, ⟨pieces, valid, within, rfl⟩, rfl⟩
  · rintro ⟨_, ⟨pieces, valid, within, rfl⟩, rfl⟩
    exact ⟨⟨pieces, valid⟩, within, rfl⟩

theorem string_recognizes {atomic : Bool} :
    Recognizes env size (Scan.expr env atomic (.ref "string"))
      (.always (IsString env.repeatLimit)) := by
  have stringRule : env.rules.lookup "string" = some (.rule 7 "string" .atomic string) :=
    defined rules rfl
  have quotes : Recognizes env size (Scan.expr env true (.literal "\"")) _ :=
    literal_recognizes "\"" size
  refine ref stringRule (rule ?_)
  have row : Recognizes env size (Scan.expr env true string) _ :=
    seq quotes (items_atomic (chars_recognizes rules) (items_atomic_last quotes))
  refine row.weaken ?_ ?_
  · rintro text ⟨_, _, rfl, ⟨inside, _, pieces, rfl, rfl⟩, rfl⟩
    exact isString_iff.mpr ⟨inside, pieces, rfl⟩
  · rintro text rest ⟨isString, _⟩
    obtain ⟨inside, pieces, rfl⟩ := isString_iff.mp isString
    change Intake.must _ (['"'] ++ (inside ++ ['"'])) rest
    exact must_append ⟨rfl, trivial⟩ (must_append ⟨pieces, rest, rfl⟩ ⟨rfl, trivial⟩)

theorem number_recognizes {atomic : Bool} :
    Recognizes env size (Scan.expr env atomic (.ref "number"))
      (.of (IsNumber env.repeatLimit) (Spares isNumeric)) := by
  have numberRule : env.rules.lookup "number" = some (.rule 9 "number" .atomic number) :=
    defined rules rfl
  exact ref numberRule (rule parts_recognizes)

end Rules

end Peg.Json
