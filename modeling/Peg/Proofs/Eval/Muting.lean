import Peg.Proofs.Eval.Tracking
import Peg.Proofs.Eval.Transactions
import Peg.Proofs.Machine.Endings
import Peg.Proofs.Tracker.History

/-!
# What muted matching leaves behind

Inside a negative lookahead a failure is what makes it succeed, and ignored text may always be
missing. Neither must show among the failures that are reported in the end, whatever is nested in
them: rules, lookaheads that are muted again, or positive ones that are not.

Both open a scope that mutes the tracker. Matching leaves a muted tracker exactly as it is, and
closing the scope gives back the tracker from before. So only what a negative lookahead records
itself, after its scope is closed, can be left of it.

## Main result

A negative lookahead does to the tracker nothing, or what recording its own failure does; ignored
text does nothing to it.
-/
namespace Peg

/-! ### Muted trackers -/

namespace Tracker

theorem muteDepth_enter (tracker : Tracker) (scope : Scope) :
    (tracker.enter scope).muteDepth = tracker.muteDepth + scope.mutes.toNat := by
  cases scope with
  | rule | muted => rfl
  | lookahead kind => cases kind <;> rfl

/-- A tracker stays exactly as it is if it is muted. -/
def Quiet (before after : Tracker) : Prop := 0 < before.muteDepth → after = before

theorem quiet_drift : Drift Quiet where
  refl _ _ := rfl
  trans early late muted := by
    have same := early muted
    subst same
    exact late muted
  record _ _ _ _ _ muted := if_pos muted
  within {before after} scope inside muted := by
    -- A scope inside may mute the tracker once more, but not less.
    have deeper := muteDepth_enter before scope
    rw [inside (by omega), leave_enter]

/-- A tracker stays exactly as it is. -/
def Same (before after : Tracker) : Prop := after = before

theorem same_course : Course Same := ⟨fun _ => rfl, fun early late => late.trans early⟩

end Tracker

/-! ### What does nothing to the tracker -/

namespace Action.Drifts

/-- An action inside a scope that mutes the tracker, if it leaves a muted tracker as it is. -/
theorem within_muting {α : Type} {scope : Scope} {body : Action α} (mutes : scope.mutes = true)
    (inner : Drifts Tracker.Quiet body) : Drifts Tracker.Same (Action.within scope body) := by
  intro before after ended
  have muted : 0 < (before.tracker.enter scope).muteDepth := by
    rw [Tracker.muteDepth_enter, mutes]
    exact Nat.succ_pos _
  unfold Action.within at ended
  cases began : body { before with tracker := before.tracker.enter scope } with
  | done value middle | fault cause middle =>
    rw [began] at ended
    cases ended
    have unchanged := inner _ middle (congrArg Outcome.state? began) muted
    have closed := congrArg (Tracker.leave · scope) unchanged
    exact closed.trans (Tracker.leave_enter before.tracker scope)
  | exhausted =>
    rw [began] at ended
    cases ended

variable (env : Env) (fuel : Nat) (start : Position) (atomic : Bool)

/-- The body of a negative lookahead, whatever it is. -/
theorem negative_body (body : Expr) :
    Drifts Tracker.Same (Action.transaction (fun _ => false)
      (Action.within (.lookahead .negative) (Peg.eval env fuel body start atomic))) := by
  have quiet := eval Tracker.quiet_drift env fuel body start atomic
  exact transaction Tracker.same_course _ (within_muting rfl quiet)

/-- Ignored text, whatever is ignored. -/
theorem ignored :
    Drifts Tracker.Same (Eval.ignored env (Peg.eval env fuel) fuel start atomic) := by
  have parts := eval Tracker.quiet_drift env fuel
  have quiet := (hereditary Tracker.quiet_drift env).skipAll parts env.skippers fuel start
  unfold Eval.ignored
  split
  · exact pure Tracker.same_course _
  · refine bind Tracker.same_course ?_ fun _ => pure Tracker.same_course _
    exact within_muting rfl quiet

end Action.Drifts

section Muting

variable {env : Env} {fuel : Nat} {body : Expr} {start : Position} {atomic : Bool}
  {before after : State} {result : Option Match}

/-! ### The body by itself -/

theorem Action.within_eq_done {α : Type} {scope : Scope} {action : Action α} {value : α}
    (ended : Action.within scope action before = .done value after) :
    ∃ inside, action { before with tracker := before.tracker.enter scope } =
      .done value inside := by
  unfold Action.within at ended
  split at ended
  next value inside began =>
    cases ended
    exact ⟨inside, began⟩
  · cases ended
  · cases ended

/-- What a body answers inside a scope and under a snapshot it answers by itself, too. -/
theorem finishes_of_transaction {keep : Option Match → Bool} {scope : Scope}
    (ended : Action.transaction keep (Action.within scope (eval env fuel body start atomic))
      before = .done result after) :
    ∃ left, Finishes env body start atomic before result left := by
  have balanced := Balanced.eval env fuel body start atomic
  obtain ⟨left, inScope, _⟩ := (balanced.within scope).transaction_eq_done keep ended
  obtain ⟨inside, answered⟩ := Action.within_eq_done inScope
  -- The body cannot tell the tracker with the scope from the one without.
  have unscoped : (eval env fuel body start atomic before.opened).Related State.SameButTracker
      (eval env fuel body start atomic
        { before.opened with tracker := before.opened.tracker.enter scope }) :=
    eval_sameButTracker _ _
  rw [answered] at unscoped
  obtain ⟨middle, under, _⟩ := unscoped.eq_done
  -- Nor does it notice the snapshot.
  have alone := balanced.blind before.opened_alike
  rw [under] at alone
  generalize met : eval env fuel body start atomic before = outcome at alone
  cases alone with
  | done value alike => exact ⟨_, finishes_iff_eval.mpr ⟨fuel, met⟩⟩

/-! ### Main result -/

/-- A lookahead that fails because its body matches is recorded at its own place, with the text that
its body has then. -/
theorem tracker_of_negativeNode {inner : Option Match}
    (ended : Clause.negativeNode env body start inner before = .done result after) :
    (inner = none → result.isSome ∧ after.tracker = before.tracker) ∧
      (inner.isSome → result = none ∧ ∃ label,
        body.text env.definitions after.forced = some label ∧
          after.tracker = before.tracker.recordPredicate false label start.offset) := by
  cases inner with
  | none =>
    refine ⟨fun _ => ?_, nofun⟩
    obtain ⟨span, middle, made, went⟩ := Action.bind_eq_done ended
    have same := Action.span_eq_done made
    cases went
    exact ⟨rfl, congrArg State.tracker same⟩
  | some found =>
    refine ⟨nofun, fun _ => ?_⟩
    obtain ⟨label, middle, shown, recorded⟩ := Action.bind_eq_done ended
    obtain ⟨text, rfl⟩ := Action.textOf_eq_done shown
    cases recorded
    exact ⟨rfl, label, text, rfl⟩

end Muting

/-- Where a negative lookahead finishes, so does its body by itself. If the body fails, the tracker
is as it was before; if it matches, all that was done to the tracker is to record the lookahead at
its own place. Where ignored text comes to an end, the tracker is as it was before, whatever is
ignored. -/
theorem muted_matching_leaves_no_trace (env : Env) (body : Expr) (start : Position) (atomic : Bool)
    (before : State) :
    (∀ result after, Finishes env (.negative body) start atomic before result after →
        ∃ inner left, Finishes env body start atomic before inner left ∧
          (inner = none → result.isSome ∧ after.tracker = before.tracker) ∧
          (inner.isSome → result = none ∧ ∃ label,
            body.text env.definitions after.forced = some label ∧
              after.tracker = before.tracker.recordPredicate false label start.offset)) ∧
      ∀ after, Leaves env .ignored start atomic before after → after.tracker = before.tracker := by
  constructor
  · intro result after finishes
    obtain ⟨fuel, ended⟩ := finishes.exists_eval
    rw [eval_negative] at ended
    obtain ⟨inner, middle, tried, went⟩ := Action.bind_eq_done ended
    obtain ⟨left, alone⟩ := finishes_of_transaction tried
    have silent : middle.tracker = before.tracker :=
      Action.Drifts.negative_body env fuel start atomic body before middle
        (congrArg Outcome.state? tried)
    refine ⟨inner, left, alone, ?_⟩
    rw [← silent]
    exact tracker_of_negativeNode went
  · intro after leaves
    obtain ⟨fuel, ended⟩ := leaves.exists_eval
    exact Action.Drifts.ignored env fuel start atomic before after ended

/-- At a letter, another one is missing in a lookahead and in a comment, and neither is recorded;
that a lookahead finds the letter which it forbids is. -/
theorem only_found_letter_recorded :
    (∃ result after, Finishes { input := ⟨0, #['a']⟩ } (.negative (.positive (.literal "b")))
        (.start ⟨0, #['a']⟩) true {} result after ∧ after.tracker = {}) ∧
      (∃ result after, Finishes { input := ⟨0, #['a']⟩ } (.negative (.positive (.literal "a")))
        (.start ⟨0, #['a']⟩) true {} result after ∧
        ∃ label, Expr.text [] after.forced (.positive (.literal "a")) = some label ∧
          after.tracker = Tracker.recordPredicate {} false label 0) ∧
      ∃ after, Leaves { input := ⟨0, #['a']⟩, comment := some (.literal "b") } .ignored
        (.start ⟨0, #['a']⟩) false {} after ∧ after.tracker = {} := by
  refine ⟨?_, ?_, ?_⟩
  · refine ⟨_, _, ⟨10, rfl⟩, ?_⟩
    have silent := muted_matching_leaves_no_trace { input := ⟨0, #['a']⟩ }
      (.positive (.literal "b")) (.start ⟨0, #['a']⟩) true {}
    obtain ⟨inner, left, alone, failed, matched⟩ := silent.1 _ _ ⟨10, rfl⟩
    cases inner with
    | none => exact (failed rfl).2
    | some found => cases (matched rfl).1
  · refine ⟨_, _, ⟨10, rfl⟩, ?_⟩
    have silent := muted_matching_leaves_no_trace { input := ⟨0, #['a']⟩ }
      (.positive (.literal "a")) (.start ⟨0, #['a']⟩) true {}
    obtain ⟨inner, left, alone, failed, matched⟩ := silent.1 _ _ ⟨10, rfl⟩
    cases inner with
    | none => cases (failed rfl).1
    | some found => exact (matched rfl).2
  · refine ⟨_, ⟨10, rfl⟩, ?_⟩
    exact (muted_matching_leaves_no_trace
      { input := ⟨0, #['a']⟩, comment := some (.literal "b") } .ignored
      (.start ⟨0, #['a']⟩) false {}).2 _ ⟨10, rfl⟩

end Peg
