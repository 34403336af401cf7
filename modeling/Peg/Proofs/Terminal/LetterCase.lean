import Peg.Proofs.Scan.Classes
import Peg.Proofs.Terminal.Mismatches
import Peg.Proofs.Text.Lowercase

/-!
# Texts in either case

A text in either case is matched by its lower-case form, which is that of the whole text. If the
match fails, the place is searched at which the first character differs, and there each character is
lower-cased on its own. The two disagree about the capital sigma, whose lower-case form depends on
whether it ends a word: a text may be missed although each of its characters is there.

## Main result

If a text in either case is not matched, then the failure is recorded where the first character
differs, unless none does. In that case the two texts differ in a final sigma, and the failure is
recorded behind the text.
-/
namespace Peg

/-! ### Characters compared one by one -/

/-- So many characters of the text are those of the input but for their case, each lower-cased on
its own, and then, within the text, the input ends or has another character. -/
structure DiffersInLetter (text input : List Char) (count : Nat) : Prop where
  inside : count < text.length
  agree : (input.take count).map Text.lowerChar = (text.take count).map Text.lowerChar
  differ : input[count]?.map Text.lowerChar ≠ text[count]?.map Text.lowerChar

/-- All characters of the text are those of the input but for their case, each lower-cased on its
own. -/
def AgreesByLetters (text input : List Char) : Prop :=
  (input.take text.length).map Text.lowerChar = text.map Text.lowerChar

/-- All characters agree, but at some place only one of the two texts has a capital sigma that ends
a word. -/
structure DiffersInSigma (text input : List Char) : Prop where
  agree : AgreesByLetters text input
  differ : ∃ place,
    ¬(Text.FinalSigmaAt [] (input.take text.length) place ↔ Text.FinalSigmaAt [] text place)

/-- The search for the first character that differs ends there, or behind the text. -/
theorem agreement_lowerChar (text : List Char) (input : Input) (place : Nat) :
    let rest := input.chars.toList.drop place
    let count := input.agreement Text.lowerChar place text
    DiffersInLetter text rest count ∨ count = text.length ∧ AgreesByLetters text rest := by
  induction text generalizing place with
  | nil => exact .inr ⟨rfl, rfl⟩
  | cons c text ih =>
    simp only [Input.agreement]
    cases found : input.chars[place]? with
    | none =>
      rw [List.drop_eq_nil_of_le (by simpa using Array.getElem?_eq_none_iff.mp found)]
      exact .inl ⟨Nat.zero_lt_succ _, rfl, by simp⟩
    | some d =>
      obtain ⟨inside, rfl⟩ := Array.getElem?_eq_some_iff.mp found
      rw [List.drop_eq_getElem_cons (by simpa using inside)]
      simp only [beq_iff_eq, Array.getElem_toList]
      split
      next same =>
        rcases ih (place + 1) with ⟨inside, agree, differ⟩ | ⟨whole, agree⟩
        · exact .inl ⟨Nat.succ_lt_succ inside, by simp [same, agree], by simpa using differ⟩
        · exact .inr ⟨congrArg (· + 1) whole, congrArg₂ List.cons same agree⟩
      next other => exact .inl ⟨Nat.zero_lt_succ _, rfl, fun same => other (Option.some.inj same)⟩

/-- Where all characters agree but the whole texts do not, they differ in a final sigma. -/
theorem differsInSigma_of_not_resembles {text input : List Char}
    (agree : AgreesByLetters text input) (unlike : ¬Scan.Resembles text input) :
    DiffersInSigma text input := by
  refine ⟨agree, ?_⟩
  -- With the same final sigmas, the whole texts would have one lower-case form.
  by_contra same
  push Not at same
  have enough : text.length ≤ input.length := by
    simpa [AgreesByLetters] using congrArg List.length agree
  exact unlike ⟨enough, Text.lowerFrom_congr agree same⟩

/-! ### Main result -/

section Main

variable (env : Env) {text : String} {here : Position} (atomic : Bool) (before : State)

theorem insensitive_finishes (alike : Scan.Resembles text.toList here.rest) :
    ∃ found, found.stop.offset = here.offset + text.length ∧
      Finishes env (.terminal (.insensitive text)) here atomic before (some found) before := by
  obtain ⟨stop, actual, matched, reads⟩ := (Scan.matchIgnoringCase_eq here text).1 alike
  obtain ⟨span, answered⟩ := Clause.answer_done reads.precedes
    (fun span => some (.terminal .insens span actual)) before
  have attempted : (Terminal.insensitive text).attempt here before =
      .done (some ⟨stop, some (.terminal .insens span actual)⟩) before := by
    rw [Terminal.attempt, matched]
    exact answered
  refine ⟨_, ?_, .of_attempt attempted⟩
  have length : (here.rest.take text.toList.length).length = text.length := by
    rw [List.length_take_of_le alike.1, String.length_toList]
  rw [reads.offset_eq, length]

theorem insensitive_fails (unlike : ¬Scan.Resembles text.toList here.rest) :
    Finishes env (.terminal (.insensitive text)) here atomic before none { before with
      tracker := before.tracker.recordFailure (.literal text true)
        (here.mismatchOffset text true) } := by
  have missed := (Scan.matchIgnoringCase_eq here text).2 unlike
  have attempted : (Terminal.insensitive text).attempt here before = .done none { before with
      tracker := before.tracker.recordFailure (.literal text true)
        (here.mismatchOffset text true) } := by
    rw [Terminal.attempt, missed]
    rfl
  exact .of_attempt attempted

end Main

/-- Let a text in either case be tried at some place, in any state. Either its lower-case form is
that of so many characters of the input: then it matches them and changes nothing. Or it fails, and
the failure is recorded so many characters further on, where the first one differs if each is
lower-cased on its own. Only if none differs, it is recorded behind the whole text, and then the two
differ in a final sigma. Unless the tracker is muted, the failure is noted there. -/
theorem misses_where_first_letter_differs (env : Env) (text : String) (here : Position)
    (atomic : Bool) (before : State) :
    (Scan.Resembles text.toList here.rest ∧
        ∃ found, found.stop.offset = here.offset + text.length ∧
          Finishes env (.terminal (.insensitive text)) here atomic before (some found) before) ∨
      (¬Scan.Resembles text.toList here.rest ∧ ∃ (count : Nat) (tracker : Tracker),
        Finishes env (.terminal (.insensitive text)) here atomic before none
            { before with tracker } ∧
          tracker = before.tracker.recordFailure (.literal text true) (here.offset + count) ∧
          (before.tracker.muteDepth = 0 →
            before.tracker.Notes (.literal text true) (here.offset + count) tracker) ∧
          (DiffersInLetter text.toList here.rest count ∨
            count = text.length ∧ DiffersInSigma text.toList here.rest)) := by
  by_cases alike : Scan.Resembles text.toList here.rest
  · exact .inl ⟨alike, insensitive_finishes env atomic before alike⟩
  · have fails := insensitive_fails env atomic before alike
    have searched := agreement_lowerChar text.toList here.input here.offset
    rw [Position.mismatchOffset, if_pos rfl, Int.natCast_add] at fails
    refine .inr ⟨alike, _, _, fails, rfl, fun unmuted => ?_, ?_⟩
    · exact before.tracker.notes_recordFailure unmuted _ _
    · apply searched.imp_right
      rintro ⟨whole, agree⟩
      rw [String.length_toList] at whole
      exact ⟨whole, differsInSigma_of_not_resembles agree alike⟩

/-- Alpha and sigma, both capital. -/
def capitals : Input := ⟨0, #['Α', 'Σ']⟩

/-- Alone, the letters of either text have the same small letters. -/
theorem lowerChar_capitals :
    Text.lowerChar 'Α' = ['α'] ∧ Text.lowerChar 'Σ' = ['σ'] ∧
      Text.lowerChar 'α' = ['α'] ∧ Text.lowerChar 'σ' = ['σ'] := by
  have alpha : Text.lowerSimple 'α' = 'α' := Text.lowerSimple_eq_self (by decide +kernel)
  have sigma : Text.lowerSimple 'σ' = 'σ' := Text.lowerSimple_eq_self (by decide +kernel)
  refine ⟨by decide +kernel, rfl, ?_, ?_⟩
  · exact congrArg ([·]) alpha
  · exact congrArg ([·]) sigma

/-- In a word, the capital sigma becomes the final one and the small sigma stays as it is. -/
theorem not_resembles_capitals :
    ¬Scan.Resembles "ασ".toList (Position.start capitals).rest := by
  rintro ⟨-, same⟩
  have cased : Text.meetsCased ['Α'] = true := by
    rw [Text.meetsCased, Text.inRanges_eq, Text.inRanges_eq]
    decide +kernel
  have final : Text.isFinalSigma ['Α'] [] = true := by
    rw [Text.isFinalSigma, cased]
    rfl
  obtain ⟨capitalAlpha, -, alpha, sigma⟩ := lowerChar_capitals
  have capital : Text.lower ['Α', 'Σ'] = ['α', 'ς'] := by
    simp [Text.lower, Text.lowerFrom, Text.lowerAt_eq, final, capitalAlpha]
  have small : Text.lower ['α', 'σ'] = ['α', 'σ'] := by
    simp [Text.lower, Text.lowerFrom, Text.lowerAt_eq, alpha, sigma]
  have forms : ['α', 'ς'] = ['α', 'σ'] := capital.symm.trans (same.trans small)
  exact absurd forms (by decide)

/-- The small letters are missed at the capital ones, though none of the letters differs, and are
recorded as missing behind both. -/
theorem small_letters_missed_behind :
    let here := Position.start capitals
    Finishes { input := capitals } (.terminal (.insensitive "ασ")) here false {} none
        { tracker := ({} : Tracker).recordFailure (.literal "ασ" true) 2 } ∧
      ∀ count, ¬DiffersInLetter "ασ".toList here.rest count := by
  intro here
  have none_differs : ∀ count, ¬DiffersInLetter "ασ".toList here.rest count := by
    rintro count ⟨inside, -, differ⟩
    obtain ⟨capitalAlpha, capitalSigma, alpha, sigma⟩ := lowerChar_capitals
    match count, inside with
    | 0, _ => exact differ (congrArg some (capitalAlpha.trans alpha.symm))
    | 1, _ => exact differ (congrArg some (capitalSigma.trans sigma.symm))
  have fails := insensitive_fails { input := capitals } false {} not_resembles_capitals
  rcases agreement_lowerChar "ασ".toList capitals 0 with differs | ⟨whole, -⟩
  · exact absurd differs (none_differs _)
  · have behind : here.input.agreement Text.lowerChar here.offset "ασ".toList = 2 := whole
    rw [Position.mismatchOffset, if_pos rfl, behind] at fails
    exact ⟨fails, none_differs⟩

/-- Nothing is muted at first, so that the failure is noted. -/
theorem small_letters_noted :
    let here := Position.start capitals
    ¬Scan.Resembles "ασ".toList here.rest ∧ ∃ (count : Nat) (tracker : Tracker),
      Finishes { input := capitals } (.terminal (.insensitive "ασ")) here false {} none
          { tracker } ∧
        ({} : Tracker).Notes (.literal "ασ" true) count tracker ∧
        (DiffersInLetter "ασ".toList here.rest count ∨
          count = 2 ∧ DiffersInSigma "ασ".toList here.rest) := by
  intro here
  rcases misses_where_first_letter_differs { input := capitals } "ασ" here false {} with
    ⟨alike, -⟩ | ⟨unlike, count, tracker, fails, -, noted, place⟩
  · exact absurd alike not_resembles_capitals
  · have notes := noted rfl
    rw [show ((here.offset : Int) + count) = count from Int.zero_add _] at notes
    exact ⟨unlike, count, tracker, fails, notes, place⟩

end Peg
