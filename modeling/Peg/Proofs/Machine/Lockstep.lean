import Peg.Proofs.Action.Simulation
import Peg.Proofs.Eval.Hereditary
import Peg.Proofs.Machine.Realization

/-!
# Two machines in lockstep

Every move of the machine is made of the same small actions as the recursive evaluation, except that
snapshots are settled and scopes are closed by a later move than the one that opens them. If each of
these actions ends alike in related states, two machines that start in related states make the same
moves, one for one, and so they come to the same end after the same number of moves.
-/
namespace Peg

namespace Machine

/-- A hereditary property that snapshots and scopes have apart from what they enclose. -/
structure Stepwise (env : Env) (P : {α : Type} → Action α → Prop) : Prop extends
    Hereditary env P where
  snapshot : P Action.snapshot
  settle : ∀ keep result, P (Action.settle keep result)
  enter : ∀ scope, P (Action.track (·.enter scope))
  leave : ∀ scope, P (Action.track (·.leave scope))

namespace Stepwise

variable {env : Env} {P : {α : Type} → Action α → Prop} (steps : Stepwise env P)

include steps

theorem openScope (scope? : Option Scope) : P (Machine.openScope scope?) := by
  cases scope? with
  | none => exact steps.pure ()
  | some scope => exact steps.enter scope

theorem closeScope (scope? : Option Scope) : P (Machine.closeScope scope?) := by
  cases scope? with
  | none => exact steps.pure ()
  | some scope => exact steps.leave scope

theorem conclude {clause : Action (Option Match)} (part : P clause) : P (conclude clause) :=
  steps.bind part fun _ _ => steps.pure _

theorem continueRep (loop : Repetition) (here : Position) (found : Array (Option Node)) :
    P (continueRep loop here found) := by
  unfold Machine.continueRep
  split
  · exact steps.conclude (steps.repClause loop.min loop.start here found)
  · split
    · exact steps.pure _
    · exact steps.pure _

theorem continueSkip (here : Position) (rest : List Expr) (progress : Bool) :
    P (continueSkip env here rest progress) := by
  unfold Machine.continueSkip
  split
  · exact steps.pure _
  · exact steps.pure _
  · exact steps.bind (steps.closeScope _) fun _ _ => steps.pure _

/-- The first move for an expression. -/
theorem begin (expr : Expr) (start : Position) (atomic : Bool) :
    P (begin env expr start atomic) := by
  cases expr with
  | terminal leaf => exact steps.conclude (steps.attempt leaf start)
  | seq | choice | push | pair => exact steps.pure _
  | opt | restorable => exact steps.bind steps.snapshot fun _ _ => steps.pure _
  | rep body min max => exact steps.continueRep _ start #[]
  | positive | negative =>
    exact steps.bind steps.snapshot fun _ _ =>
      steps.bind (steps.openScope _) fun _ _ => steps.pure _
  | rule =>
    exact steps.bind (steps.emit _) fun _ _ =>
      steps.bind (steps.openScope _) fun _ _ => steps.pure _
  | ref name => exact steps.bind (steps.lookupRule name) fun _ _ => steps.pure _
  | lazy cell => exact steps.bind (steps.force cell) fun _ _ => steps.pure _
  | ignored =>
    dsimp only [Machine.begin]
    split
    · exact steps.pure _
    · exact steps.bind (steps.openScope _) fun _ _ => steps.continueSkip start _ false
  | abstract => exact steps.fail .noMatcher nofun

/-- The next move of a frame. -/
theorem receive (frame : Frame) (result : Option Match) : P (receive env frame result) := by
  cases frame with
  | seqItem start rest found atomic =>
    cases result with
    | none => exact steps.pure _
    | some item =>
      cases rest with
      | nil => exact steps.conclude (steps.answer start item.stop _)
      | cons next rest =>
        dsimp only [Machine.receive]
        split
        · exact steps.pure _
        · exact steps.pure _
  | seqGap | repGap => exact steps.pure _
  | choice start index rest atomic =>
    cases result with
    | some found => exact steps.conclude (steps.answer start found.stop _)
    | none => cases rest <;> exact steps.pure _
  | opt start =>
    refine steps.conclude ?_
    rw [Clause.opt_eq]
    exact steps.bind (steps.settle _ _) fun _ _ => steps.answer start _ _
  | repItem loop here found =>
    cases result with
    | none => exact steps.conclude (steps.repClause loop.min loop.start here found)
    | some item =>
      dsimp only [Machine.receive]
      split
      · exact steps.conclude (steps.failure (.repeatLimit _) _ _ none)
      · exact steps.continueRep loop item.stop _
  | positive body start =>
    refine steps.bind (steps.closeScope _) fun _ _ => steps.conclude ?_
    rw [Clause.positive_eq]
    exact steps.bind (steps.settle _ _) fun _ _ => steps.positiveNode body start result
  | negative body start =>
    refine steps.bind (steps.closeScope _) fun _ _ => steps.conclude ?_
    rw [Clause.negative_eq]
    exact steps.bind (steps.settle _ _) fun _ _ => steps.negativeNode body start result
  | restorable =>
    refine steps.conclude ?_
    rw [Clause.restorable_eq]
    exact steps.bind (steps.settle _ _) fun _ _ => steps.pure result
  | push start => exact steps.conclude (steps.pushClause start result)
  | rule name kind start =>
    exact steps.bind (steps.closeScope _) fun _ _ =>
      steps.conclude (steps.ruleClause name kind start result)
  | skip here skipper rest progress =>
    cases result with
    | none => exact steps.continueSkip here rest progress
    | some found =>
      dsimp only [Machine.receive]
      split
      · exact steps.continueSkip here rest progress
      · exact steps.pure _
  | pairFirst => cases result <;> exact steps.pure _
  | pairSecond start first =>
    cases result with
    | none => exact steps.pure _
    | some second => exact steps.conclude (steps.answer start second.stop _)

end Stepwise

section Lockstep

variable {env : Env} {excuse : Prop} {related : State → State → Prop}
  (steps : Stepwise env (Action.SimulatesUnless excuse related)) {left right : State}

include steps

/-- Frames that are given up close their scopes on both sides. -/
theorem unwind_related (states : related left right) (frames : List Frame) :
    related (unwind frames left) (unwind frames right) := by
  induction frames generalizing left right with
  | nil => exact states
  | cons frame frames ih =>
    rw [unwind_cons, unwind_cons]
    apply ih
    cases frame.scope? with
    | none => exact states
    | some scope =>
      rcases steps.leave scope left right states with ⟨_, _, ⟨⟩⟩ | closed
      cases closed with
      | done value after => exact after

theorem run_related (fuel : Nat) (move : Move) (frames : List Frame) (states : related left right) :
    (Machine.run env fuel move frames left).settle.RelatedUnless excuse related
      (Machine.run env fuel move frames right).settle := by
  induction fuel generalizing move frames left right with
  | zero => exact .inr .exhausted
  | succ fuel ih =>
    -- Whatever the step is, both sides take it alike and go on alike.
    have proceeds : ∀ {step : Action Move} (frames : List Frame),
        Action.SimulatesUnless excuse related step →
          (proceed env fuel step frames left).settle.RelatedUnless excuse related
            (proceed env fuel step frames right).settle := by
      intro step frames simulates
      unfold proceed
      rcases simulates left right states with ⟨excused, after, broken⟩ | stepped
      · rw [broken]
        exact .inl ⟨excused, unwind frames after, rfl⟩
      generalize step left = outcome at stepped
      generalize step right = other at stepped
      cases stepped with
      | done move after => exact ih move frames after
      | fault cause after => exact .inr (.fault cause (unwind_related steps after frames))
      | exhausted => exact .inr .exhausted
    cases move with
    | answer result =>
      cases frames with
      | nil => exact .inr (.done result states)
      | cons frame frames => exact proceeds frames (steps.receive frame result)
    | enter expr here atomic => exact proceeds frames (steps.begin expr here atomic)
    | call frame expr here atomic =>
      exact proceeds (frame :: frames) (steps.begin expr here atomic)

end Lockstep

end Machine

/-- Matching an expression ends alike in related states, after the same number of moves, unless it
is excused that there is no text to show. -/
theorem run_simulatesUnless {env : Env} {excuse : Prop} {related : State → State → Prop}
    (steps : Machine.Stepwise env (Action.SimulatesUnless excuse related)) (fuel : Nat)
    (expr : Expr) (start : Position) (atomic : Bool) :
    Action.SimulatesUnless excuse related (run env fuel expr start atomic) :=
  fun _ _ states => Machine.run_related steps fuel (.enter expr start atomic) [] states

end Peg
