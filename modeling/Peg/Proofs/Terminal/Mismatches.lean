import Mathlib.Order.Bounds.Basic
import Peg.Proofs.Terminal.Backreferences
import Peg.Proofs.Tracker.Summary

/-!
# Texts are matched exactly

A literal tries a text of its own, and a backreference one that it takes from the stack: the text of
the top, or the texts of several spans one after another. Whether the input goes on with the text is
found out at once, and where it does not is searched character by character. The two agree: a text
that is not matched differs from the input within its length, also where the input ends.

## Main result

A terminal that tries a text matches just where the input goes on with it. Elsewhere it records the
text as missing, behind the longest front that the text and the input have in common, and leaves the
stack alone.
-/
namespace Peg

/-! ### Common fronts -/

/-- So long is the longest front that two texts have in common. -/
def IsCommonFront (text input : List Char) (size : Nat) : Prop :=
  IsGreatest {size | ∃ front, front <+: text ∧ front <+: input ∧ front.length = size} size

/-- Where one text goes on with another, they hold the same characters. -/
theorem getElem?_of_front {front text : List Char} (goesOn : front <+: text) {place : Nat}
    (inside : place < front.length) : text[place]? = front[place]? := by
  obtain ⟨tail, rfl⟩ := goesOn
  exact List.getElem?_append_left inside

namespace DiffersAfter

variable {text input : List Char} {size : Nat}

/-- Texts that differ after so many characters have no longer front in common. -/
theorem isCommonFront (differs : DiffersAfter text input size) :
    IsCommonFront text input size := by
  obtain ⟨inside, agree, differ⟩ := differs
  constructor
  · refine ⟨text.take size, List.take_prefix _ _, ?_, ?_⟩
    · rw [← agree]
      exact List.take_prefix _ _
    · simp [Nat.le_of_lt inside]
  · rintro _ ⟨front, ofText, ofInput, rfl⟩
    -- A longer front would hold the character at which the two differ.
    by_contra longer
    have further : size < front.length := by simpa using longer
    apply differ
    rw [getElem?_of_front ofText further, getElem?_of_front ofInput further]

theorem not_front (differs : DiffersAfter text input size) : ¬text <+: input :=
  fun front => differs.differ (getElem?_of_front front differs.inside)

end DiffersAfter

/-! ### What is tried -/

namespace Terminal

/-- The text that a terminal tries: its own, or one that it takes from the stack. -/
def tries? (stack : Stack Span) : Terminal → Option String
  | literal text => some text
  | peek | pop => stack.peek?.map Span.text
  | peekAll | popAll => some (String.join (stack.items.map Span.text))
  | peekSlice start stop =>
    (stack.slice? start stop).map fun spans => String.join (spans.map Span.text)
  | _ => none

/-- What a terminal that matched leaves of the stack. -/
def leaves (stack : Stack Span) : Terminal → Stack Span
  | pop => stack.pop.2
  | popAll => stack.clear
  | _ => stack

section Attempts

variable (here : Position) {before : State} {text : String}

theorem literal_tried (text : String) :
    ((literal text).attempt here before).withoutNodes = tried here text before before := by
  rw [attempt, tried]
  cases matched : here.matchLiteral text with
  | none => rfl
  | some stop =>
    have ordered := (Position.reads_of_matchLiteral matched).precedes
    obtain ⟨span, answered⟩ := Clause.answer_done ordered
      (fun span => some (.terminal .literal span text)) before
    exact congrArg Outcome.withoutNodes answered

/-- A terminal that tries a text ends as the text is tried. -/
theorem attempt_tried {leaf : Terminal} (tries : leaf.tries? before.stack = some text) :
    (leaf.attempt here before).withoutNodes =
      tried here text before { before with stack := leaf.leaves before.stack } := by
  cases leaf with
  | literal own =>
    cases tries
    exact literal_tried here _
  | peek =>
    obtain ⟨top, first, rfl⟩ := Option.map_eq_some_iff.mp tries
    exact matchTop_tried here .peek id first
  | pop =>
    obtain ⟨top, first, rfl⟩ := Option.map_eq_some_iff.mp tries
    exact matchTop_tried here .pop (fun stack => stack.pop.2) first
  | peekAll =>
    cases tries
    exact matchSlice_tried here .peekAll id before.stack.slice?_whole
  | popAll =>
    cases tries
    exact matchSlice_tried here .popAll Stack.clear before.stack.slice?_whole
  | peekSlice start stop =>
    obtain ⟨spans, sliced, rfl⟩ := Option.map_eq_some_iff.mp tries
    exact matchSlice_tried here .peekSlice id sliced
  | _ => cases tries

end Attempts

end Terminal

/-! ### What is noted -/

/-- A failure is noted at an offset: none that is held is further back, and if none was further on
before, then the failure is held, inside the scopes that were open. -/
structure Tracker.Notes (before : Tracker) (failure : Failure) (offset : Int) (after : Tracker) :
    Prop where
  furthest : after.furthest = max before.furthest offset
  holds : before.furthest ≤ offset → before.recordOf failure none ∈ after.records

theorem Tracker.notes_recordFailure {tracker : Tracker} (unmuted : tracker.muteDepth = 0)
    (failure : Failure) (offset : Int) :
    tracker.Notes failure offset (tracker.recordFailure failure offset) := by
  constructor
  · exact tracker.recordFailure_furthest failure none unmuted offset
  · exact tracker.mem_recordFailure failure none unmuted

/-! ### Main result -/

/-- What an attempt at a terminal comes to, matching the terminal comes to as well. -/
theorem finishes_of_attempt (env : Env) {leaf : Terminal} {here : Position} (atomic : Bool)
    {before after : State} {stop? : Option Position}
    (attempted : (leaf.attempt here before).withoutNodes = .done stop? after) :
    ∃ result, Finishes env (.terminal leaf) here atomic before result after ∧
      result.map Match.stop = stop? := by
  obtain ⟨result, ended, stops⟩ := Outcome.eq_done_of_withoutNodes attempted
  exact ⟨result, .of_attempt ended, stops⟩

/-- Let a terminal try a text at some place, in any state. It matches if and only if the input goes
on with the text, and then it ends behind it. Otherwise it records the text as missing, behind the
longest front that the text has in common with the rest of the input. That front is shorter than the
text. Nothing else is changed, and unless the tracker is muted, the failure is noted there. -/
theorem texts_are_matched_exactly (env : Env) (leaf : Terminal) (here : Position) (atomic : Bool)
    (before : State) (text : String) (tries : leaf.tries? before.stack = some text) :
    ((∃ found after, Finishes env (.terminal leaf) here atomic before (some found) after) ↔
        text.toList <+: here.rest) ∧
      (text.toList <+: here.rest → ∃ found, found.stop.offset = here.offset + text.length ∧
        Finishes env (.terminal leaf) here atomic before (some found)
          { before with stack := leaf.leaves before.stack }) ∧
      (¬text.toList <+: here.rest → ∃ size tracker,
        IsCommonFront text.toList here.rest size ∧ size < text.length ∧
          Finishes env (.terminal leaf) here atomic before none { before with tracker } ∧
          tracker = before.tracker.recordFailure (.literal text false) (here.offset + size) ∧
          (before.tracker.muteDepth = 0 →
            before.tracker.Notes (.literal text false) (here.offset + size) tracker)) := by
  have attempted := Terminal.attempt_tried here tries
  have ways := Terminal.textTried_tried here text before
    { before with stack := leaf.leaves before.stack }
  generalize Terminal.tried here text before _ = outcome at attempted ways
  cases ways with
  | matched reads =>
    -- The text was read, so that the input goes on with it.
    obtain ⟨result, finishes, stops⟩ := finishes_of_attempt env atomic attempted
    obtain ⟨found, rfl, rfl⟩ := Option.map_eq_some_iff.mp stops
    have front : text.toList <+: here.rest := ⟨_, reads.rest_eq.symm⟩
    refine ⟨⟨fun _ => front, fun _ => ⟨found, _, finishes⟩⟩, fun _ => ⟨found, ?_, finishes⟩,
      fun other => absurd front other⟩
    rw [reads.offset_eq, String.length_toList]
  | @differed size differs =>
    obtain ⟨result, finishes, stops⟩ := finishes_of_attempt env atomic attempted
    obtain rfl := Option.map_eq_none_iff.mp stops
    have other := differs.not_front
    have unmatched : ¬∃ found after,
        Finishes env (.terminal leaf) here atomic before (some found) after := by
      rintro ⟨found, after, matched⟩
      cases (matched.unique finishes).1
    refine ⟨⟨fun matched => absurd matched unmatched, fun front => absurd front other⟩,
      fun front => absurd front other, fun _ => ?_⟩
    refine ⟨size, _, differs.isCommonFront, ?_, finishes, rfl, fun unmuted => ?_⟩
    · rw [← String.length_toList]
      exact differs.inside
    · exact before.tracker.notes_recordFailure unmuted _ _

/-- With the first two letters on the stack, the whole stack is matched, and taken, where the text
goes on in reverse. One letter earlier, it goes on with one of the two letters only. -/
theorem letters_matched_backwards :
    let env : Env := { input := mirrored }
    let middle : Position := ⟨mirrored, 2, by decide⟩
    let earlier : Position := ⟨mirrored, 1, by decide⟩
    (Terminal.popAll.tries? mirroredState.stack = some "ba" ∧ "ba".toList <+: middle.rest ∧
        ∃ found, found.stop.offset = 4 ∧ Finishes env (.terminal .popAll) middle false mirroredState
          (some found) { mirroredState with stack := mirroredState.stack.clear }) ∧
      (Terminal.peekAll.tries? mirroredState.stack = some "ba" ∧ ¬"ba".toList <+: earlier.rest ∧
        ∃ size tracker, IsCommonFront "ba".toList earlier.rest size ∧ size < 2 ∧
          Finishes env (.terminal .peekAll) earlier false mirroredState none
            { mirroredState with tracker } ∧
          tracker = mirroredState.tracker.recordFailure (.literal "ba" false) (1 + size) ∧
          (mirroredState.tracker.muteDepth = 0 →
            mirroredState.tracker.Notes (.literal "ba" false) (1 + size) tracker)) := by
  intro env middle earlier
  have whole : Terminal.popAll.tries? mirroredState.stack = some "ba" := rfl
  have found : "ba".toList <+: middle.rest := by decide
  have missed : ¬"ba".toList <+: earlier.rest := by decide
  obtain ⟨-, matched, -⟩ :=
    texts_are_matched_exactly env .popAll middle false mirroredState "ba" whole
  obtain ⟨-, -, failed⟩ :=
    texts_are_matched_exactly env .peekAll earlier false mirroredState "ba" whole
  exact ⟨⟨whole, found, matched found⟩, ⟨whole, missed, failed missed⟩⟩

end Peg
