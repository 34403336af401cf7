import Peg.Proofs.Eval.Tracking
import Peg.Proofs.Expr.Texts
import Peg.Proofs.Machine.Lockstep

/-!
# What matching looks at

Of the state, the way of matching depends on the stack, and a little on what was looked up. Failures
are recorded and scopes are opened and closed, the trace is kept, and lazy expressions are
remembered once they were looked up; but hardly any of this is looked at while an expression is
matched. The one exception are lookaheads that fail. They are recorded under the texts of their
bodies, in which a lazy expression shows what it stands for only if it was looked up before.

What such a text reads has no influence on the way, but it has one whether there is a text at all.
Where more was looked up, there are fewer texts. So two states with the same stack go the same way
if the same was looked up in both; and if more was looked up in one of them, that one may be broken
off where the other is not. A relation of their trackers is kept if it is kept when the same is done
to both, be it but for the text of a lookahead.
-/
namespace Peg

/-- States with the same stack, whose trackers are related, and so is what was looked up. -/
structure State.SameStack (trackers : Tracker → Tracker → Prop)
    (lookups : List LazyCell → List LazyCell → Prop) (left right : State) : Prop where
  stack : left.stack = right.stack
  tracker : trackers left.tracker right.tracker
  forced : lookups left.forced right.forced

/-- The same was looked up on both sides or, if that is excused, more on the left. -/
structure LookedUp (excuse : Prop) (left right : List LazyCell) : Prop where
  fewer : right ⊆ left
  same : excuse ∨ left ⊆ right

namespace LookedUp

variable {excuse : Prop} {left right : List LazyCell}

theorem refl (forced : List LazyCell) : LookedUp excuse forced forced :=
  ⟨List.Subset.refl _, .inr (List.Subset.refl _)⟩

/-- The same is looked up on both sides. -/
theorem remember {before after : State} (looked : LookedUp excuse before.forced after.forced)
    (cell : LazyCell) :
    LookedUp excuse (before.remember cell).forced (after.remember cell).forced := by
  refine ⟨fun other found => ?_, looked.same.imp_right fun more other found => ?_⟩
  · rw [State.mem_remember_forced] at found ⊢
    exact found.imp_right fun found => looked.fewer found
  · rw [State.mem_remember_forced] at found ⊢
    exact found.imp_right fun found => more found

/-- An expression without a text on the right has none on the left. -/
theorem text_eq_none (looked : LookedUp excuse left right) {definitions : Definitions} {expr : Expr}
    (lost : expr.text definitions right = none) : expr.text definitions left = none :=
  Expr.text_eq_none_of_subset looked.fewer lost

end LookedUp

/-- A relation between two trackers that is kept if the same is done to both, and if failures of one
lookahead are recorded under different texts. -/
structure Tracker.Blur (related : Tracker → Tracker → Prop) : Prop extends
    Tracker.Simulation related where
  predicate : ∀ {left right} positive label other offset, related left right →
    related (left.recordPredicate positive label offset)
      (right.recordPredicate positive other offset)

namespace Tracker.Blur

open Peg.Action (Simulates SimulatesUnless)

variable {related : Tracker → Tracker → Prop} {lookups : List LazyCell → List LazyCell → Prop}
  {excuse : Prop}

theorem changeStack (change : Stack Span → Except StackError (Stack Span)) :
    Simulates (State.SameStack related lookups) (Action.changeStack change) := by
  refine .bind (.gets fun states => states.stack) fun stack => ?_
  refine .bind (.ofExcept .stack _) fun changed => .modify fun states => ?_
  exact ⟨rfl, states.tracker, states.forced⟩

theorem changeItems (change : Stack Span → Stack Span) :
    Simulates (State.SameStack related lookups) (Action.changeItems change) :=
  .modify fun states => ⟨congrArg change states.stack, states.tracker, states.forced⟩

theorem settle (keep : Option Match → Bool) (result : Option Match) :
    Simulates (State.SameStack related lookups) (Action.settle keep result) := by
  unfold Action.settle
  split
  · exact changeStack _
  · exact changeStack _

theorem emit (env : Env) (event : TraceEvent) :
    Simulates (State.SameStack related lookups) (Action.emit env event) := by
  unfold Action.emit
  split
  · exact .modify fun states => ⟨states.stack, states.tracker, states.forced⟩
  · exact .pure ()

theorem force (env : Env) (cell : LazyCell) :
    Simulates (State.SameStack related (LookedUp excuse)) (Action.force env cell) := by
  refine .bind (.ofExcept .build _) fun target => .bind ?_ fun _ => .pure target
  change Simulates _ (Action.modify (·.remember cell))
  refine .modify fun {left right} states => ?_
  refine ⟨?_, ?_, states.forced.remember cell⟩
  · rw [State.remember_stack, State.remember_stack, states.stack]
  · rw [State.remember_tracker, State.remember_tracker]
    exact states.tracker

variable (blur : Tracker.Blur related)

include blur

/-- Terminals are matched alike in two states with the same stack, whatever was looked up. -/
theorem primitive : Primitive (Simulates (State.SameStack related lookups)) where
  pure := .pure
  bind := .bind_answers
  fail cause _ := .fail cause
  peek := .gets fun states => by rw [states.stack]
  slice _ _ := .gets fun states => by rw [states.stack]
  pop := changeItems _
  clear := changeItems _
  push _ := changeItems _
  track {failure} _ offset kind := .modify fun states =>
    ⟨states.stack, blur.record failure offset kind states.tracker, states.forced⟩

theorem openScope (scope : Scope) :
    Simulates (State.SameStack related lookups) (Action.track (·.enter scope)) :=
  .modify fun states => ⟨states.stack, blur.enter scope states.tracker, states.forced⟩

theorem closeScope (scope : Scope) :
    Simulates (State.SameStack related lookups) (Action.track (·.leave scope)) :=
  .modify fun states => ⟨states.stack, blur.leave scope states.tracker, states.forced⟩

theorem within {α : Type} (scope : Scope) {body : Action α}
    (inner : SimulatesUnless excuse (State.SameStack related lookups) body) :
    SimulatesUnless excuse (State.SameStack related lookups) (Action.within scope body) := by
  intro left right states
  have began := inner { left with tracker := left.tracker.enter scope }
    { right with tracker := right.tracker.enter scope }
    ⟨states.stack, blur.enter scope states.tracker, states.forced⟩
  unfold Action.within
  generalize body { left with tracker := left.tracker.enter scope } = outcome at began
  generalize body { right with tracker := right.tracker.enter scope } = other at began
  rcases began with ⟨excused, after, rfl⟩ | began
  · exact .inl ⟨excused, _, rfl⟩
  cases began with
  | done value after =>
    exact .inr (.done value ⟨after.stack, blur.leave scope after.tracker, after.forced⟩)
  | fault cause after =>
    exact .inr (.fault cause ⟨after.stack, blur.leave scope after.tracker, after.forced⟩)
  | exhausted => exact .inr .exhausted

theorem failedPredicate (env : Env) (positive : Bool) (body : Expr) (start : Position) :
    SimulatesUnless excuse (State.SameStack related (LookedUp excuse))
      (Action.textOf env body >>= fun label =>
        Action.track (·.recordPredicate positive label start.offset) >>= fun _ =>
          pure (none : Option Match)) := by
  intro left right states
  cases shown : body.text env.definitions left.forced with
  | none =>
    have lost := Action.textOf_of_none shown
    refine states.forced.same.imp (fun excused => ?_) fun more => ?_
    · exact ⟨excused, Action.bind_endless ⟨left, lost⟩⟩
    · have also := Action.textOf_of_none (Expr.text_eq_none_of_subset more shown)
      rw [Action.bind_of_fault lost, Action.bind_of_fault also]
      exact .fault .endlessText states
  | some label =>
    cases also : body.text env.definitions right.forced with
    | none => cases shown.symm.trans (states.forced.text_eq_none also)
    | some other =>
      have recorded := blur.predicate positive label other start.offset states.tracker
      rw [Action.bind_of_done (Action.textOf_of_some shown),
        Action.bind_of_done (Action.textOf_of_some also)]
      exact .inr (.done none ⟨states.stack, recorded, states.forced⟩)

/-- All that the machine does ends alike in two states with the same stack, except where more was
looked up on the left and there is no text any more. -/
theorem stepwise (env : Env) : Machine.Stepwise env
    (SimulatesUnless excuse (State.SameStack related (LookedUp excuse))) where
  pure value := (Simulates.pure value).unless
  bind := .bind_answers
  exhausted := Simulates.exhausted.unless
  fail cause _ := (Simulates.fail cause).unless
  peek := blur.primitive.peek.unless
  slice start stop := (blur.primitive.slice start stop).unless
  pop := blur.primitive.pop.unless
  clear := blur.primitive.clear.unless
  push span := (blur.primitive.push span).unless
  track ordinary offset kind := (blur.primitive.track ordinary offset kind).unless
  failedPredicate := blur.failedPredicate env
  emit event := (emit env event).unless
  force cell := (force env cell).unless
  within := blur.within
  transaction keep body inner := by
    refine .bind (changeItems Stack.snapshot).unless fun _ => .bind inner fun result => ?_
    exact .bind (settle keep result).unless fun _ => (Simulates.pure result).unless
  snapshot := (changeItems Stack.snapshot).unless
  settle keep result := (settle keep result).unless
  enter scope := (blur.openScope scope).unless
  leave scope := (blur.closeScope scope).unless

end Tracker.Blur

/-- Trackers need not have anything in common. -/
theorem Tracker.anything : Tracker.Blur fun _ _ => True where
  record _ _ _ _ := trivial
  enter _ _ := trivial
  leave _ _ := trivial
  predicate _ _ _ _ _ := trivial

section Runs

variable {related : Tracker → Tracker → Prop} (blur : Tracker.Blur related) (env : Env)
  (fuel : Nat) (expr : Expr) (start : Position) (atomic : Bool)

include blur

/-- Matching goes the same way in states with the same stack and leaves them so, except where more
was looked up on the left and there is no text any more. -/
theorem run_sameStackUnless (excuse : Prop) :
    Action.SimulatesUnless excuse (State.SameStack related (LookedUp excuse))
      (run env fuel expr start atomic) :=
  run_simulatesUnless (blur.stepwise env) fuel expr start atomic

/-- Where the same was looked up, there is no exception. -/
theorem run_sameStack : Action.Simulates (State.SameStack related (LookedUp False))
    (run env fuel expr start atomic) :=
  Action.simulatesUnless_false.mp (run_sameStackUnless blur env fuel expr start atomic False)

end Runs

end Peg
