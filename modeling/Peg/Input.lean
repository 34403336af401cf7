import Peg.Text.Lines

/-!
Input texts. Two inputs are the same only if they have the same identity: equal texts that were
given separately are different inputs, and their positions and spans are never equal. Offsets count
code points.
-/

namespace Peg

/-- A text to be matched. -/
structure Input where
  /-- The identity of the input. -/
  id : Nat
  /-- The characters of the text. -/
  chars : Array Char

namespace Input

/-- The input with the given identity and text. -/
def ofString (id : Nat) (text : String) : Input := ⟨id, text.toList.toArray⟩

/-- The number of characters. -/
def size (input : Input) : Nat := input.chars.size

/-- The part of the text between two signed bounds. -/
def slice (input : Input) (start stop : Int) : String := Text.slice input.chars start stop

/-- Whether the text goes on with the given characters at a place. -/
def continuesWith (input : Input) : Nat → List Char → Bool
  | _, [] => true
  | place, c :: rest => input.chars[place]? == some c && input.continuesWith (place + 1) rest

/-- The number of characters from a place on that agree with the given ones, each compared after
`fold`, before the text ends or the first pair differs. -/
def agreement {α : Type} [BEq α] (input : Input) (fold : Char → α) : Nat → List Char → Nat
  | _, [] => 0
  | place, c :: rest =>
    match input.chars[place]? with
    | none => 0
    | some actual =>
      if fold actual == fold c then input.agreement fold (place + 1) rest + 1 else 0

/-- The first of the next `count + 1` places at which the text goes on with one of the texts. -/
def find? (input : Input) (texts : List (List Char)) (place : Nat) : (count : Nat) → Option Nat
  | 0 => if texts.any (input.continuesWith place) then some place else none
  | count + 1 =>
    if texts.any (input.continuesWith place) then some place
    else input.find? texts (place + 1) count

theorem continuesWith_iff (input : Input) (place : Nat) (text : List Char) :
    input.continuesWith place text = true ↔
      ∀ i, (h : i < text.length) → input.chars[place + i]? = some text[i] := by
  induction text generalizing place with
  | nil => simp [continuesWith]
  | cons c rest ih =>
    simp only [continuesWith, Bool.and_eq_true, beq_iff_eq, ih]
    constructor
    · rintro ⟨first, others⟩ i h
      cases i with
      | zero => simpa using first
      | succ i =>
        have := others i (by simpa using h)
        simpa [Nat.add_assoc, Nat.add_comm 1] using this
    · intro all
      refine ⟨all 0 (Nat.zero_lt_succ _), fun i h => ?_⟩
      have := all (i + 1) (by simpa using h)
      simpa [Nat.add_assoc, Nat.add_comm 1] using this

/-- A text that the input goes on with ends inside the input. -/
theorem le_size_of_continuesWith {input : Input} {place : Nat} {text : List Char}
    (inside : place ≤ input.size) (continues : input.continuesWith place text = true) :
    place + text.length ≤ input.size := by
  cases text with
  | nil => simpa using inside
  | cons c rest =>
    have last := (continuesWith_iff input place (c :: rest)).mp continues rest.length (by simp)
    have := (Array.getElem?_eq_some_iff.mp last).1
    simp only [size, List.length_cons]
    omega

/-- A place that was found lies in the range that was searched. -/
theorem le_of_find?_eq_some {input : Input} {texts : List (List Char)} {place count found : Nat}
    (h : input.find? texts place count = some found) :
    place ≤ found ∧ found ≤ place + count := by
  induction count generalizing place with
  | zero =>
    simp only [find?] at h
    split at h
    · cases h; omega
    · cases h
  | succ count ih =>
    simp only [find?] at h
    split at h
    · cases h; omega
    · have := ih h; omega

end Input

end Peg
