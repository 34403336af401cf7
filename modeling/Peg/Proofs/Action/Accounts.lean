import Peg.Proofs.Eval.Muting
import Peg.Proofs.Natural.Positions

/-!
# Actions that account for what they record

What a tracker holds is a summary of what was recorded in it. An action accounts for what it records
if every failure that it adds lies inside the input, and if the answer fits to the failures that
were added before it. An action that is made of two in a row adds what the first one does and then
what the second one does, so that these accounts compose.

Only trackers that are not muted are looked at here. A part of an action that does nothing to the
tracker adds nothing, and need not be taken apart.
-/
namespace Peg

/-! ### Recordings -/

/-- A failure inside the input. To a negative lookahead belongs nothing but its own failure, as what
happens inside it is not recorded. -/
structure Recording.Sound (input : Input) (recording : Recording) : Prop where
  nonneg : 0 ≤ recording.offset
  le_size : recording.offset ≤ input.size
  negative : recording.record.kind = some .negative →
    ∃ label, recording.record.failure = .predicate false label

/-- Some failure was recorded at a position or beyond it. -/
def Tells (here : Position) (gained : List Recording) : Prop :=
  ∃ recording ∈ gained, (here.offset : Int) ≤ recording.offset

theorem Tells.among {start here : Position} {gained : List Recording} (tells : Tells here gained)
    (ordered : start.Precedes here) (earlier later : List Recording) :
    Tells start (earlier ++ (gained ++ later)) := by
  obtain ⟨recording, member, beyond⟩ := tells
  have order := ordered.offset_le
  exact ⟨recording, by simp [member], by omega⟩

namespace Tracker

/-- Failures are recorded, and none as part of a negative lookahead. -/
structure Listens (tracker : Tracker) : Prop where
  unmuted : tracker.muteDepth = 0
  kinds : Lookahead.negative ∉ tracker.kinds

namespace Listens

variable {tracker other : Tracker}

theorem congr (listens : tracker.Listens) (same : tracker.SameScopes other) : other.Listens := by
  constructor
  · rw [← same.muteDepth]
    exact listens.unmuted
  · rw [← same.kinds]
    exact listens.kinds

theorem enter (listens : tracker.Listens) {scope : Scope} (loud : scope.mutes = false) :
    (tracker.enter scope).Listens := by
  obtain ⟨unmuted, kinds⟩ := listens
  cases scope with
  | rule name => exact ⟨unmuted, kinds⟩
  | lookahead kind =>
    cases kind with
    | positive => exact ⟨unmuted, by simpa [Tracker.enter] using kinds⟩
    | negative => cases loud
  | muted => cases loud

/-- What is recorded belongs to no negative lookahead, unless it is said to. -/
theorem recordOf_kind_ne (listens : tracker.Listens) (failure : Failure) {kind : Option Lookahead}
    (given : kind ≠ some .negative) : (tracker.recordOf failure kind).kind ≠ some .negative := by
  intro negative
  cases kind with
  | some kind => exact given negative
  | none => exact listens.kinds (List.mem_of_head? negative)

end Listens

/-- A tracker goes over into another one by recording sound failures. -/
structure Gains (input : Input) (before : Tracker) (gained : List Recording) (after : Tracker) :
    Prop where
  scopes : before.SameScopes after
  sound : ∀ recording ∈ gained, recording.Sound input
  summarizes : ∀ {earlier : List Recording}, before.Summarizes earlier →
    after.Summarizes (earlier ++ gained)

namespace Gains

variable {input : Input} {before middle after : Tracker} {gained more : List Recording}

theorem refl (input : Input) (tracker : Tracker) : Gains input tracker [] tracker := by
  refine ⟨.refl tracker, nofun, fun summary => ?_⟩
  rw [List.append_nil]
  exact summary

theorem trans (early : Gains input before gained middle) (late : Gains input middle more after) :
    Gains input before (gained ++ more) after := by
  refine ⟨early.scopes.trans late.scopes, ?_, fun summary => ?_⟩
  · rw [List.forall_mem_append]
    exact ⟨early.sound, late.sound⟩
  · rw [← List.append_assoc]
    exact late.summarizes (early.summarizes summary)

theorem record (tracker : Tracker) (unmuted : tracker.muteDepth = 0) (failure : Failure)
    (offset : Int) (kind : Option Lookahead)
    (sound : Recording.Sound input ⟨offset, tracker.recordOf failure kind⟩) :
    Gains input tracker [⟨offset, tracker.recordOf failure kind⟩]
      (tracker.recordFailure failure offset kind) := by
  refine ⟨sameScopes_recordFailure tracker failure offset kind, ?_, fun summary => ?_⟩
  · simpa using sound
  · exact summary.recordFailure unmuted failure offset kind

/-- What is recorded inside a scope stays when the scope is closed. -/
theorem within (scope : Scope) (inside : Gains input (before.enter scope) gained after) :
    Gains input before gained (after.leave scope) := by
  refine ⟨?_, inside.sound, fun summary => ?_⟩
  · have closed := inside.scopes.leave scope
    rwa [leave_enter] at closed
  · have held := inside.summarizes (summary.congr (before.sameFailures_enter scope))
    exact held.congr (after.sameFailures_leave scope)

end Gains

end Tracker

/-! ### Actions that account for what they record -/

/-- However it ended, sound failures were recorded, and if there is an answer they fit to it. -/
def Outcome.Gained {α : Type} (input : Input) (before : Tracker)
    (holds : α → List Recording → Prop) : Outcome α → Prop
  | .done value after => ∃ gained, before.Gains input gained after.tracker ∧ holds value gained
  | .fault _ after => ∃ gained, before.Gains input gained after.tracker
  | .exhausted => True

theorem Outcome.Gained.exists_gains {α : Type} {input : Input} {before : Tracker}
    {holds : α → List Recording → Prop} {outcome : Outcome α} {after : State}
    (accounted : outcome.Gained input before holds) (ended : outcome.state? = some after) :
    ∃ gained, before.Gains input gained after.tracker := by
  cases outcome with
  | done value left =>
    cases ended
    obtain ⟨gained, gains, _⟩ := accounted
    exact ⟨gained, gains⟩
  | fault cause left =>
    cases ended
    exact accounted
  | exhausted => cases ended

/-- An action that records sound failures, which fit to its answer. -/
def Action.Accounts {α : Type} (input : Input) (action : Action α)
    (holds : α → List Recording → Prop) : Prop :=
  ∀ before, before.tracker.Listens → (action before).Gained input before.tracker holds

namespace Action.Accounts

variable {α β : Type} {input : Input} {holds : α → List Recording → Prop}
  {later : β → List Recording → Prop}

theorem mono {weaker : α → List Recording → Prop} {action : Action α}
    (accounts : Accounts input action holds)
    (weaken : ∀ value gained, holds value gained → weaker value gained) :
    Accounts input action weaker := by
  intro before listens
  have ended := accounts before listens
  cases outcome : action before with
  | done value after =>
    rw [outcome] at ended
    obtain ⟨gained, gains, fits⟩ := ended
    exact ⟨gained, gains, weaken value gained fits⟩
  | fault cause after => rwa [outcome] at ended
  | exhausted => trivial

theorem answered {action : Action α} (accounts : Accounts input action holds) :
    Accounts input action fun value gained =>
      holds value gained ∧ ∃ before after, action before = .done value after := by
  intro before listens
  have ended := accounts before listens
  cases outcome : action before with
  | done value after =>
    rw [outcome] at ended
    obtain ⟨gained, gains, fits⟩ := ended
    exact ⟨gained, gains, fits, before, after, outcome⟩
  | fault cause after => rwa [outcome] at ended
  | exhausted => trivial

theorem bind {first : Action α} {next : α → Action β} (early : Accounts input first holds)
    (late : ∀ value gained, holds value gained →
      Accounts input (next value) fun answer more => later answer (gained ++ more)) :
    Accounts input (first >>= next) later := by
  intro before listens
  have began := early before listens
  cases outcome : first before with
  | done value middle =>
    rw [outcome] at began
    rw [Action.bind_of_done outcome]
    obtain ⟨gained, gains, fits⟩ := began
    have went := late value gained fits middle (listens.congr gains.scopes)
    cases ended : next value middle with
    | done answer after =>
      rw [ended] at went
      obtain ⟨more, added, fits⟩ := went
      exact ⟨gained ++ more, gains.trans added, fits⟩
    | fault cause after =>
      rw [ended] at went
      obtain ⟨more, added⟩ := went
      exact ⟨gained ++ more, gains.trans added⟩
    | exhausted => trivial
  | fault cause after =>
    rw [outcome] at began
    rw [Action.bind_of_fault outcome]
    obtain ⟨gained, gains⟩ := began
    exact ⟨gained, gains⟩
  | exhausted =>
    rw [Action.bind_of_exhausted outcome]
    trivial

/-- What does nothing to the tracker records nothing. -/
theorem of_same {action : Action α} (same : Drifts Tracker.Same action) :
    Accounts input action fun _ gained => gained = [] := by
  intro before listens
  have ended := same before
  cases outcome : action before with
  | done value after =>
    have kept : after.tracker = before.tracker := ended after (congrArg Outcome.state? outcome)
    exact ⟨[], kept ▸ .refl input before.tracker, rfl⟩
  | fault cause after =>
    have kept : after.tracker = before.tracker := ended after (congrArg Outcome.state? outcome)
    exact ⟨[], kept ▸ .refl input before.tracker⟩
  | exhausted => trivial

theorem pure {value : α} (fits : holds value []) : Accounts input (Pure.pure value) holds := by
  refine (of_same (.pure Tracker.same_course value)).answered.mono ?_
  rintro answer gained ⟨rfl, before, after, ended⟩
  cases ended
  exact fits

/-- An action after one that does nothing to the tracker. -/
theorem after_same {first : Action α} {next : α → Action β} (same : Drifts Tracker.Same first)
    (late : ∀ value, (∃ before after, first before = .done value after) →
      Accounts input (next value) later) : Accounts input (first >>= next) later := by
  refine (of_same same).answered.bind fun value gained reached => ?_
  obtain ⟨rfl, ended⟩ := reached
  exact late value ended

theorem exhausted : Accounts input (Action.exhausted : Action α) holds := fun _ _ => trivial

theorem within {scope : Scope} (loud : scope.mutes = false) {body : Action α}
    (inner : Accounts input body holds) : Accounts input (Action.within scope body) holds := by
  intro before listens
  have ended := inner { before with tracker := before.tracker.enter scope } (listens.enter loud)
  unfold Action.within
  cases outcome : body { before with tracker := before.tracker.enter scope } with
  | done value after =>
    rw [outcome] at ended
    obtain ⟨gained, gains, fits⟩ := ended
    exact ⟨gained, gains.within scope, fits⟩
  | fault cause after =>
    rw [outcome] at ended
    obtain ⟨gained, gains⟩ := ended
    exact ⟨gained, gains.within scope⟩
  | exhausted => trivial

theorem changeItems (change : Stack Span → Stack Span) :
    Drifts Tracker.Same (Action.changeItems change) :=
  .of_modify Tracker.same_course fun _ => rfl

theorem lookupRule (env : Env) (name : String) :
    Drifts Tracker.Same (Action.lookupRule env name) := by
  unfold Action.lookupRule
  split
  · exact .pure Tracker.same_course _
  · exact .fail Tracker.same_course _

theorem transaction (keep : Option Match → Bool) {body : Action (Option Match)}
    {holds : Option Match → List Recording → Prop} (inner : Accounts input body holds) :
    Accounts input (Action.transaction keep body) holds := by
  refine after_same (changeItems Stack.snapshot) fun _ _ => inner.bind fun result gained fits => ?_
  have settled : Drifts Tracker.Same (Action.settle keep result) := by
    unfold Action.settle
    split
    · exact .changeStack Tracker.same_course _
    · exact .changeStack Tracker.same_course _
  refine after_same settled fun _ _ => pure ?_
  simpa using fits

/-! Answers and failures -/

section Results

variable {answers : Option Match → List Recording → Prop}

/-- An answer with a node over a span. -/
theorem answer (start stop : Position) (node : Span → Match)
    (fits : ∀ found, answers (some found) []) :
    Accounts input (Action.span start stop >>= fun span => Pure.pure (some (node span))) answers :=
  after_same (.ofExcept Tracker.same_course _ _) fun span _ => pure (fits (node span))

/-- A failure that is recorded inside the input is all that is recorded. -/
theorem record (failure : Failure) {offset : Int} (nonneg : 0 ≤ offset)
    (bound : offset ≤ input.size) (kind : Option Lookahead)
    (negative : kind = some .negative → ∃ label, failure = .predicate false label) :
    Accounts input (Action.track (·.recordFailure failure offset kind)) fun _ gained =>
      ∃ record, gained = [⟨offset, record⟩] := by
  intro before listens
  refine ⟨_, .record before.tracker listens.unmuted failure offset kind ?_, _, rfl⟩
  refine ⟨nonneg, bound, fun belongs => ?_⟩
  by_cases given : kind = some .negative
  · exact negative given
  · exact absurd belongs (listens.recordOf_kind_ne failure given)

/-- It tells of the position from which it was tried. -/
theorem track {here : Position} (inside : here.input = input) (failure : Failure) {offset : Int}
    (beyond : here.offset ≤ offset) (bound : offset ≤ here.input.size) (kind : Option Lookahead)
    (negative : kind = some .negative → ∃ label, failure = .predicate false label) :
    Accounts input (Action.track (·.recordFailure failure offset kind)) fun _ gained =>
      Tells here gained := by
  have nonneg : 0 ≤ offset := by omega
  refine (record failure nonneg (inside ▸ bound) kind negative).mono ?_
  rintro _ _ ⟨record, rfl⟩
  exact ⟨_, List.mem_singleton_self _, beyond⟩

theorem missed {here : Position} (inside : here.input = input) (failure : Failure) {offset : Int}
    (beyond : here.offset ≤ offset) (bound : offset ≤ here.input.size) :
    Accounts input (Action.track (·.recordFailure failure offset) >>= fun _ =>
      Pure.pure (none : Option Match)) fun _ gained => Tells here gained := by
  refine (track inside failure beyond bound none nofun).bind fun _ gained tells => pure ?_
  simpa using tells

end Results

end Action.Accounts

end Peg
