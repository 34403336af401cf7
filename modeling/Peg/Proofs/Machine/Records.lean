import Peg.Proofs.Machine.Lockstep
import Peg.Proofs.Machine.Unwinding
import Peg.Proofs.Tracker.Summary

/-!
# What every move keeps

The ends of matching follow from the recursive evaluation, where a scope encloses a part. What holds
on the way is about the machine, which opens a scope by one move and closes it by a later one. So a
relation between a tracker and what becomes of it holds all the way if it is kept by a record, by
opening a scope and by closing one. That is so for whatever holds of the records alone and is kept
when a failure that matching records is added to them or replaces them.

## Main result

`Tracker.Steady.reaches`: however far the machine has come, the tracker is related to the first one.
-/
namespace Peg

/-- Each step of the machine is the first move for an expression or the next move of a frame. -/
theorem Machine.Stepwise.step {env : Env} {P : {α : Type} → Action α → Prop}
    (steps : Machine.Stepwise env P) {config : Machine.Configuration} {step : Action Move}
    {waiting : List Frame} (taken : config.step? env = some (step, waiting)) : P step := by
  obtain ⟨move, frames, state⟩ := config
  cases move with
  | answer result =>
    cases frames with
    | nil => cases taken
    | cons frame frames =>
      cases taken
      exact steps.receive frame result
  | enter expr here atomic | call frame expr here atomic =>
    cases taken
    exact steps.begin expr here atomic

namespace Tracker

/-- A relation between a tracker and what becomes of it that is kept by the records that matching
makes, and by opening and by closing a scope. -/
structure Steady (drift : Tracker → Tracker → Prop) : Prop extends Course drift where
  record : ∀ tracker {failure : Failure}, failure.Ordinary → ∀ offset kind,
    drift tracker (tracker.recordFailure failure offset kind)
  enter : ∀ tracker scope, drift tracker (tracker.enter scope)
  leave : ∀ tracker scope, drift tracker (tracker.leave scope)

namespace Steady

variable {drift : Tracker → Tracker → Prop} (steady : Steady drift)

include steady

theorem toDrift : Drift drift where
  toCourse := steady.toCourse
  record := steady.record
  within {before after} scope inside :=
    steady.trans (steady.trans (steady.enter before scope) inside) (steady.leave after scope)

/-- Whatever the machine does keeps the relation. -/
theorem stepwise (env : Env) : Machine.Stepwise env (Action.Drifts drift) where
  toHereditary := Action.Drifts.hereditary steady.toDrift env
  snapshot := .of_modify steady.toCourse fun _ => rfl
  settle := .settle steady.toCourse
  enter scope := by
    rintro before _ ⟨⟩
    exact steady.enter before.tracker scope
  leave scope := by
    rintro before _ ⟨⟩
    exact steady.leave before.tracker scope

/-- However far the machine has come, the tracker is related to the one that it started with. -/
theorem reaches {env : Env} {config reached : Machine.Configuration}
    (reaches : Machine.Reaches env config reached) :
    drift config.state.tracker reached.state.tracker := by
  induction reaches with
  | refl => exact steady.refl _
  | tail _ moves ih =>
    obtain ⟨taken, made⟩ := moves
    have kept := (steady.stepwise env).step taken
    exact steady.trans ih (kept _ _ (congrArg Outcome.state? made))

end Steady

end Tracker

/-! ### Records -/

/-- What holds of some records is kept if a failure that matching records is added to them, and it
holds of such a failure alone. -/
structure Record.Kept (holds : List Record → Prop) : Prop where
  alone : ∀ {record : Record}, record.failure.Ordinary → holds [record]
  added : ∀ {records : List Record} {record : Record}, record.failure.Ordinary → holds records →
    holds (insertNew records record)

/-- If something holds of the records of the one tracker, it holds of those of the other. -/
def Tracker.KeepsRecords (holds : List Record → Prop) (before after : Tracker) : Prop :=
  holds before.records → holds after.records

theorem Record.Kept.steady {holds : List Record → Prop} (kept : Record.Kept holds) :
    Tracker.Steady (Tracker.KeepsRecords holds) where
  refl _ held := held
  trans early late held := late (early held)
  record tracker failure ordinary offset kind held := by
    unfold Tracker.recordFailure
    split
    · exact held
    split
    · exact held
    split
    · exact kept.alone ordinary
    · exact kept.added ordinary held
  enter tracker scope held := (tracker.sameFailures_enter scope).records ▸ held
  leave tracker scope held := (tracker.sameFailures_leave scope).records ▸ held

end Peg
