import Peg.Proofs.Json.Timing
import Peg.Proofs.Json.Unescaping

/-!
# Strings in ASCII

Any string can be written with ASCII characters only. A character that is beyond ASCII is escaped by
its code units in UTF-16, which are two for a character beyond the code points of four hexadecimal
digits. But each escape of a code unit is loaded by itself. So what is loaded are the code units of
the string, and that is the string only if no character of it has two.

## Main result

An encoding of a string in ASCII is loaded as its code units.
-/
namespace Peg.Json

open Syntax

/-! ### Code units -/

/-- The code units of a character: its code point, or the two halves of a surrogate pair. -/
def codeUnits (c : Char) : List Nat :=
  if c.toNat < 0x10000 then [c.toNat]
  else [0xd800 + (c.toNat - 0x10000) / 0x400, 0xdc00 + (c.toNat - 0x10000) % 0x400]

theorem toNat_lt (c : Char) : c.toNat < 0x110000 := by
  have valid := c.valid
  simp only [UInt32.isValidChar, Nat.isValidChar] at valid
  change c.val.toNat < _
  omega

theorem codeUnits_lt {c : Char} {value : Nat} (among : value ∈ codeUnits c) : value < 0x10000 := by
  have bound := toNat_lt c
  unfold codeUnits at among
  split at among
  · simp_all
  · simp only [List.mem_cons, List.not_mem_nil, or_false] at among
    omega

theorem length_codeUnits_le (c : Char) : (codeUnits c).length ≤ 2 := by
  unfold codeUnits
  split <;> simp

/-- The code units of a string are its code points unless there is a surrogate pair among them. -/
theorem flatMap_codeUnits_iff (chars : List Char) :
    chars.flatMap codeUnits = chars.map Char.toNat ↔ ∀ c ∈ chars, c.toNat < 0x10000 := by
  induction chars with
  | nil => simp
  | cons c chars ih =>
    rw [List.flatMap_cons, List.map_cons, List.forall_mem_cons, ← ih, codeUnits]
    split
    next low => simp [low]
    next high =>
      -- The first half of a pair is less than the code point.
      have bound := toNat_lt c
      simp only [List.cons_append, List.cons.injEq, high, false_and, iff_false, not_and]
      omega

/-! ### Encodings -/

/-- The piece is the escape of a code unit. -/
def Piece.Escapes (value : Nat) : Piece → Prop
  | unit a b c d => value < 0x10000 ∧ IsHex a (value / 4096) ∧ IsHex b (value / 256 % 16) ∧
      IsHex c (value / 16 % 16) ∧ IsHex d (value % 16)
  | _ => False

/-- A character is encoded in ASCII: as it is rendered, if it is an ASCII character, and else by the
escapes of its code units. -/
inductive Encoded : Char → List Piece → Prop
  | ascii {c : Char} {piece : Piece} (low : c.toNat < 0x80) (renders : piece.Renders c.toNat) :
      Encoded c [piece]
  | beyond {c : Char} {pieces : List Piece} (high : 0x80 ≤ c.toNat)
      (escapes : List.Forall₂ Piece.Escapes (codeUnits c) pieces) : Encoded c pieces

/-- A string in quotes encodes characters in ASCII, one after the other. -/
def Syntax.Quoted.Encodes (quoted : Quoted) (chars : List Char) : Prop :=
  ∃ parts, List.Forall₂ Encoded chars parts ∧ quoted.pieces = parts.flatten

theorem codePoint_of_escapes {value : Nat} {piece : Piece} (escapes : piece.Escapes value) :
    piece.codePoint = value := by
  cases piece with
  | plain | short => exact escapes.elim
  | unit a b c d =>
    obtain ⟨small, first, second, third, fourth⟩ := escapes
    exact codePoint_unit small first second third fourth

theorem codePoints_of_escapes {values : List Nat} {pieces : List Piece}
    (escapes : List.Forall₂ Piece.Escapes values pieces) : pieces.map Piece.codePoint = values := by
  induction escapes with
  | nil => rfl
  | cons first _ ih => rw [List.map_cons, codePoint_of_escapes first, ih]

theorem exists_of_escapes {values : List Nat} {pieces : List Piece}
    (escapes : List.Forall₂ Piece.Escapes values pieces) :
    ∀ piece ∈ pieces, ∃ value, piece.Escapes value := by
  induction escapes with
  | nil => exact nofun
  | cons first _ ih => exact List.forall_mem_cons.mpr ⟨⟨_, first⟩, ih⟩

/-- Only a piece that stands for itself may be no ASCII character. -/
theorem text_ascii_of_valid {piece : Piece} (valid : piece.Valid)
    (plain : ∀ c, piece = .plain c → c.toNat < 0x80) : ∀ c ∈ piece.text, c.toNat < 0x80 := by
  cases piece with
  | plain c =>
    simp only [Piece.text, List.forall_mem_cons]
    exact ⟨plain c rfl, List.forall_mem_nil _⟩
  | short mark meant =>
    have low : ∀ escape ∈ shortEscapes, escape.1.toNat < 0x80 := by decide
    simp only [Piece.text, List.forall_mem_cons]
    exact ⟨by decide, low _ (mem_shortEscapes valid), List.forall_mem_nil _⟩
  | unit a b c d =>
    have low : ∀ digit ∈ [a, b, c, d], digit.toNat < 0x80 := by
      intro digit among
      obtain ⟨value, known⟩ := Option.isSome_iff_exists.mp (valid digit among)
      exact Nat.lt_trans (toNat_lt_of_hexValue known) (by decide)
    simp only [Piece.text, List.forall_mem_cons (a := '\\'), List.forall_mem_cons (a := 'u')]
    exact ⟨by decide, by decide, low⟩

namespace Encoded

variable {c : Char} {pieces : List Piece}

theorem length_le (encoded : Encoded c pieces) : pieces.length ≤ 2 := by
  cases encoded with
  | ascii => simp
  | beyond _ escapes =>
    rw [← escapes.length_eq]
    exact length_codeUnits_le c

theorem codePoints (encoded : Encoded c pieces) (valid : ∀ piece ∈ pieces, piece.Valid) :
    pieces.map Piece.codePoint = codeUnits c := by
  cases encoded with
  | ascii low renders =>
    rw [codeUnits, if_pos (Nat.lt_trans low (by decide)), List.map_singleton,
      Piece.codePoint_of_renders (valid _ List.mem_cons_self) renders]
  | beyond _ escapes => exact codePoints_of_escapes escapes

/-- No character that is not ASCII stands for itself. -/
theorem plain_ascii (encoded : Encoded c pieces) :
    ∀ piece ∈ pieces, ∀ d, piece = .plain d → d.toNat < 0x80 := by
  rintro _ among d rfl
  cases encoded with
  | ascii low renders =>
    cases List.mem_singleton.mp among
    rwa [show d.toNat = c.toNat from renders]
  | beyond _ escapes =>
    obtain ⟨value, escape⟩ := exists_of_escapes escapes _ among
    exact escape.elim

end Encoded

namespace Syntax.Quoted

variable {quoted : Quoted} {chars : List Char}

theorem Encodes.within (encodes : quoted.Encodes chars) : quoted.Within (2 * chars.length) := by
  obtain ⟨parts, each, same⟩ := encodes
  rw [Within, same]
  clear same
  induction each with
  | nil => exact Nat.le_refl _
  | cons first _ ih =>
    have few := first.length_le
    simp only [List.flatten_cons, List.length_append, List.length_cons] at *
    omega

theorem Encodes.points_eq (encodes : quoted.Encodes chars) :
    quoted.points = chars.flatMap codeUnits := by
  obtain ⟨parts, each, same⟩ := encodes
  have valid := quoted.valid
  rw [points, same]
  rw [same] at valid
  clear same
  induction each with
  | nil => rfl
  | cons first _ ih =>
    rw [List.flatten_cons, List.forall_mem_append] at valid
    rw [List.flatten_cons, List.map_append, first.codePoints valid.1, ih valid.2,
      List.flatMap_cons]

theorem Encodes.ascii (encodes : quoted.Encodes chars) : ∀ c ∈ quoted.chars, c.toNat < 0x80 := by
  obtain ⟨parts, each, same⟩ := encodes
  have plain : ∀ piece ∈ parts.flatten, ∀ d, piece = .plain d → d.toNat < 0x80 := by
    clear same
    induction each with
    | nil => exact nofun
    | cons first _ ih =>
      rw [List.flatten_cons, List.forall_mem_append]
      exact ⟨first.plain_ascii, ih⟩
  have inside : ∀ c ∈ quoted.pieces.flatMap Piece.text, c.toNat < 0x80 := by
    intro c among
    obtain ⟨piece, listed, within⟩ := List.mem_flatMap.mp among
    exact text_ascii_of_valid (quoted.valid piece listed) (plain piece (same ▸ listed)) c within
  rw [Quoted.chars, List.forall_mem_cons, List.forall_mem_append, List.forall_mem_singleton]
  exact ⟨by decide, inside, by decide⟩

end Syntax.Quoted

/-! ### An encoder -/

/-- The escape of a code unit in small letters. -/
def escapeUnit (value : Nat) : Piece :=
  .unit (Nat.digitChar (value / 4096)) (Nat.digitChar (value / 256 % 16))
    (Nat.digitChar (value / 16 % 16)) (Nat.digitChar (value % 16))

/-- The mark of the short escape of a character. A slash is not escaped. -/
def shortMark? (c : Char) : Option Char :=
  (shortEscapes.find? fun escape => escape.1 != '/' && escape.2 == c.toNat).map Prod.fst

/-- The pieces of a character: a short escape if it has one, the character itself if it is ASCII and
can be seen, and else the escapes of its code units. -/
def encodeChar (c : Char) : List Piece :=
  match shortMark? c with
  | some mark => [.short mark c]
  | none => if ' ' ≤ c ∧ c ≤ '~' then [.plain c] else (codeUnits c).map escapeUnit

theorem escapeUnit_escapes {value : Nat} (small : value < 0x10000) :
    (escapeUnit value).Escapes value := by
  have digits : ∀ value < 16, IsHex (Nat.digitChar value) value := by decide
  exact ⟨small, digits _ (by omega), digits _ (by omega), digits _ (by omega), digits _ (by omega)⟩

theorem Piece.Escapes.valid {value : Nat} {piece : Piece} (escapes : piece.Escapes value) :
    piece.Valid := by
  cases piece with
  | plain | short => exact escapes.elim
  | unit a b c d =>
    obtain ⟨_, first, second, third, fourth⟩ := escapes
    simp [Valid, hexValue_of_isHex first, hexValue_of_isHex second, hexValue_of_isHex third,
      hexValue_of_isHex fourth]

theorem mem_of_shortMark {c mark : Char} (known : shortMark? c = some mark) :
    (mark, c.toNat) ∈ shortEscapes := by
  obtain ⟨⟨mark, point⟩, found, rfl⟩ := Option.map_eq_some_iff.mp known
  have accepted := List.find?_some found
  simp only [Bool.and_eq_true, beq_iff_eq] at accepted
  rw [← accepted.2]
  exact List.mem_of_find?_eq_some found

theorem shortMeaning_of_shortMark {c mark : Char} (known : shortMark? c = some mark) :
    shortMeaning? mark = some c := by
  obtain ⟨meant, means, same⟩ := Option.map_eq_some_iff.mp
    (shortMeaning_of_mem (mem_of_shortMark known))
  rw [means, ← Char.ofNat_toNat meant, same, Char.ofNat_toNat]

/-- An ASCII character is rendered by the escape of its code unit. -/
theorem renders_of_escapes {value : Nat} {piece : Piece} (low : value < 0x80)
    (escapes : piece.Escapes value) : piece.Renders value := by
  cases piece with
  | plain | short => exact escapes.elim
  | unit a b c d => exact ⟨escapes.1, by omega, escapes.2⟩

theorem encodeChar_valid (c : Char) : ∀ piece ∈ encodeChar c, piece.Valid := by
  unfold encodeChar
  split
  next mark known =>
    rw [List.forall_mem_cons]
    exact ⟨shortMeaning_of_shortMark known, nofun⟩
  next unknown =>
    split
    next seen =>
      have special : shortMark? '"' ≠ none ∧ shortMark? '\\' ≠ none := by decide
      rw [List.forall_mem_cons]
      refine ⟨⟨seen.1, ?_, ?_⟩, nofun⟩
      · rintro rfl
        exact special.1 unknown
      · rintro rfl
        exact special.2 unknown
    next =>
      rw [List.forall_mem_map]
      exact fun value among => (escapeUnit_escapes (codeUnits_lt among)).valid

theorem encodeChar_encoded (c : Char) : Encoded c (encodeChar c) := by
  unfold encodeChar
  split
  next mark known =>
    have listed := mem_of_shortMark known
    have low : ∀ escape ∈ shortEscapes, escape.2 < 0x80 := by decide
    exact .ascii (low _ listed) listed
  next unknown =>
    split
    next seen =>
      have low : c.toNat ≤ '~'.toNat := UInt32.le_iff_toNat_le.mp seen.2
      exact .ascii (Nat.lt_of_le_of_lt low (by decide)) rfl
    next =>
      -- Control characters are ASCII, but cannot be seen.
      by_cases low : c.toNat < 0x80
      · have one : codeUnits c = [c.toNat] := if_pos (Nat.lt_trans low (by decide))
        rw [one, List.map_singleton]
        exact .ascii low (renders_of_escapes low (escapeUnit_escapes (by omega)))
      · refine .beyond (Nat.le_of_not_lt low) ?_
        rw [List.forall₂_map_right_iff, List.forall₂_same]
        exact fun value among => escapeUnit_escapes (codeUnits_lt among)

/-- A string in quotes and in ASCII. -/
def encode (chars : List Char) : Quoted where
  pieces := chars.flatMap encodeChar
  valid piece among := by
    obtain ⟨c, _, among⟩ := List.mem_flatMap.mp among
    exact encodeChar_valid c piece among

theorem encode_encodes (chars : List Char) : (encode chars).Encodes chars := by
  refine ⟨chars.map encodeChar, ?_, List.flatMap_def⟩
  rw [List.forall₂_map_right_iff, List.forall₂_same]
  exact fun c _ => encodeChar_encoded c

/-! ### Main result -/

/-- What is loaded from an encoding are the code units. -/
theorem load_of_encodes {quoted : Quoted} {chars : List Char} (encodes : quoted.Encodes chars)
    (few : chars.length ≤ 512) :
    load (String.ofList quoted.chars) = .ok (.str (chars.flatMap codeUnits)) := by
  have within : quoted.Within 1024 := Nat.le_trans encodes.within (Nat.mul_le_mul_left 2 few)
  rw [load_string within, encodes.points_eq]

/-- Each string has an encoding in ASCII. If it has at most 512 characters, then what is loaded from
any such encoding of it are its code units in UTF-16. That is the string itself if and only if all
of its characters have code points of at most four hexadecimal digits. -/
theorem ascii_encoding_loads_code_units (chars : List Char) (few : chars.length ≤ 512) :
    (encode chars).Encodes chars ∧ ∀ quoted : Quoted, quoted.Encodes chars →
      (∀ c ∈ quoted.chars, c.toNat < 0x80) ∧
        load (String.ofList quoted.chars) = .ok (.str (chars.flatMap codeUnits)) ∧
        (load (String.ofList quoted.chars) = .ok (.str (chars.map Char.toNat)) ↔
          ∀ c ∈ chars, c.toNat < 0x10000) := by
  refine ⟨encode_encodes chars, fun quoted encodes => ?_⟩
  have loads := load_of_encodes encodes few
  refine ⟨encodes.ascii, loads, ?_⟩
  rw [loads, ← flatMap_codeUnits_iff]
  simp

/-- A letter with an accent is loaded from its escape. -/
theorem accent_loads : let quoted := encode ['é']
    ['é'].length ≤ 512 ∧ quoted.Encodes ['é'] ∧
      (∀ c ∈ quoted.chars, c.toNat < 0x80) ∧
        load (String.ofList quoted.chars) = .ok (.str [0xe9]) ∧
        (load (String.ofList quoted.chars) = .ok (.str [0xe9]) ↔
          ∀ c ∈ ['é'], c.toNat < 0x10000) := by
  intro quoted
  have few : ['é'].length ≤ 512 := by decide
  obtain ⟨encodes, loads⟩ := ascii_encoding_loads_code_units ['é'] few
  exact ⟨few, encodes, loads quoted encodes⟩

/-- A face, which is encoded by a surrogate pair, is loaded as two code points. -/
theorem face_loads_as_halves : let text := "\"\\ud83d\\ude00\""
    (encode ['😀']).chars = text.toList ∧ (encode ['😀']).Encodes ['😀'] ∧
      load text = .ok (.str [0xd83d, 0xde00]) ∧
      load text ≠ .ok (.str (['😀'].map Char.toNat)) := by
  intro text
  have chars : (encode ['😀']).chars = text.toList := by decide
  have loads := load_of_encodes (encode_encodes ['😀']) (by decide)
  rw [chars, String.ofList_toList] at loads
  refine ⟨chars, encode_encodes ['😀'], loads, ?_⟩
  rw [loads]
  intro same
  have points := Value.str.inj (Except.ok.inj same)
  exact absurd points (by decide)

end Peg.Json
