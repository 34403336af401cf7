import Mathlib.Logic.Relation
import Peg.Proofs.Eval.Tracking
import Peg.Proofs.Eval.Transactions
import Peg.Proofs.Machine.Endings
import Peg.Proofs.Tracker.Parts

/-!
# Scopes at the end of matching

Scopes of the tracker are held open by frames that wait for a part. A frame that receives its
result closes its scope. If a fault breaks the matching off instead, no frame receives anything any
more, and the machine halts with the scopes of the frames that wait still open; they are closed when
these frames are given up. Either way the scopes are afterwards those from before.

That a result is answered with the scopes and snapshots from before follows from the recursive
evaluation, in which a scope encloses the part. What a fault leaves is about the machine: at any of
its moves, the open scopes are those from before and those of the frames that wait, and the last
move raises the fault without recording any failure afterwards.

## Main result

The open scopes at the end are those at the beginning, and so are the open snapshots of the stack if
there is a result; a fault leaves those open that the waiting frames hold until they are given up,
and the failures that were held when it was raised.
-/
namespace Peg

open Peg.Action (Drifts)

/-! ### Scopes of frames -/

/-- The tracker after the scopes that frames hold are opened, those of the outermost frame first. -/
def Tracker.enterFrames (tracker : Tracker) (waiting : List Frame) : Tracker :=
  waiting.foldr (fun frame tracker => tracker.enterAny frame.scope?) tracker

/-- The scope that is held by the frame which a move puts on the others. -/
def Move.scope? : Move → Option Scope
  | call frame _ _ _ => frame.scope?
  | answer _ | enter .. => none

namespace Machine

variable {env : Env}

/-- Closing the scopes of the frames does nothing to the failures. -/
theorem sameFailures_unwind (frames : List Frame) (state : State) :
    state.tracker.SameFailures (unwind frames state).tracker := by
  induction frames generalizing state with
  | nil => exact .refl _
  | cons frame frames ih =>
    rw [unwind_cons]
    refine .trans ?_ (ih _)
    cases frame.scope? with
    | none => exact .refl _
    | some scope => exact Tracker.sameFailures_leave state.tracker scope

/-- Closing a scope undoes opening it. -/
theorem sameScopes_leaveAny {base : Tracker} {scope? : Option Scope} {state : State}
    (opened : (base.enterAny scope?).SameScopes state.tracker) :
    base.SameScopes (state.leaveAny scope?).tracker := by
  cases scope? with
  | none => exact opened
  | some scope =>
    have closed := opened.leave scope
    rwa [Tracker.enterAny, Tracker.leave_enter] at closed

/-- When the frames that wait are given up, the scopes are open again from before they waited. -/
theorem sameScopes_unwind {base : Tracker} {waiting : List Frame} {state : State}
    (opened : (base.enterFrames waiting).SameScopes state.tracker) :
    base.SameScopes (unwind waiting state).tracker := by
  induction waiting generalizing state with
  | nil => exact opened
  | cons frame frames ih =>
    rw [unwind_cons]
    exact ih (sameScopes_leaveAny opened)

/-! ### Steps -/

/-- A step that ends so leaves those scopes open that the base has and the one of its next move. -/
def LeavesOpen (base : Tracker) : Outcome Move → Prop
  | .done next after => (base.enterAny next.scope?).SameScopes after.tracker
  | .fault _ raised => base.SameScopes raised.tracker
  | .exhausted => True

/-- Whatever scopes were open when this one was opened, if one is given: the step closes it, or its
next move puts the frame that holds it on the others. -/
def Handles (scope? : Option Scope) (step : Action Move) : Prop :=
  ∀ base state, (base.enterAny scope?).SameScopes state.tracker → LeavesOpen base (step state)

namespace Handles

variable {α : Type} {scope? : Option Scope}

theorem pure {next : Move} (held : next.scope? = scope?) : Handles scope? (pure next) := by
  subst held
  exact fun base state opened => opened

theorem fail (cause : Fault) : Handles none (Action.fail cause) := fun _ _ opened => opened

theorem bind {first : Action α} {next : α → Action Move} (early : Drifts Tracker.SameScopes first)
    (late : ∀ value, Handles none (next value)) : Handles none (first >>= next) := by
  intro base state opened
  cases began : first state with
  | done value middle =>
    rw [Action.bind_of_done began]
    exact late value base middle (opened.trans (early _ _ (congrArg Outcome.state? began)))
  | fault cause raised =>
    rw [Action.bind_of_fault began]
    exact opened.trans (early _ _ (congrArg Outcome.state? began))
  | exhausted =>
    rw [Action.bind_of_exhausted began]
    trivial

theorem conclude {clause : Action (Option Match)} (drifts : Drifts Tracker.SameScopes clause) :
    Handles none (conclude clause) := bind drifts fun _ => pure rfl

theorem opening {step : Action Move} (rest : Handles scope? step) :
    Handles none (openScope scope? >>= fun _ => step) := by
  intro base state opened
  cases scope? with
  | none => exact rest base state opened
  | some scope => exact rest base _ (opened.enter scope)

theorem closing {step : Action Move} (rest : Handles none step) :
    Handles scope? (closeScope scope? >>= fun _ => step) := by
  intro base state opened
  have closed := sameScopes_leaveAny opened
  cases scope? with
  | none => exact rest base state closed
  | some scope => exact rest base _ closed

end Handles

/-- What matching does inside a clause leaves the scopes alone. -/
theorem hereditary_sameScopes (env : Env) : Hereditary env (Drifts Tracker.SameScopes) :=
  Drifts.hereditary Tracker.sameScopes_drift env

theorem settle_sameScopes (keep : Option Match → Bool) (result : Option Match) :
    Drifts Tracker.SameScopes (Action.settle keep result) :=
  .settle Tracker.sameScopes_drift.toCourse keep result

theorem snapshot_sameScopes : Drifts Tracker.SameScopes Action.snapshot :=
  .of_modify Tracker.sameScopes_drift.toCourse fun _ => rfl

theorem continueRep_handles (loop : Repetition) (here : Position) (found : Array (Option Node)) :
    Handles none (continueRep loop here found) := by
  unfold continueRep
  split
  · exact .conclude ((hereditary_sameScopes {input := here.input}).repClause _ _ _ _)
  · split
    · exact .pure rfl
    · exact .pure rfl

/-- Ignored text is skipped with a scope open until none is left. -/
theorem continueSkip_handles (here : Position) (rest : List Expr) (progress : Bool) :
    Handles (some .muted) (continueSkip env here rest progress) := by
  unfold continueSkip
  split
  · exact .pure rfl
  · exact .pure rfl
  · exact .closing (.pure rfl)

/-- The first move for an expression opens the scope of its frame, if that has one. -/
theorem begin_handles (expr : Expr) (start : Position) (atomic : Bool) :
    Handles none (begin env expr start atomic) := by
  have parts := hereditary_sameScopes env
  cases expr with
  | terminal leaf => exact .conclude (parts.attempt leaf start)
  | seq | choice | push | pair => exact .pure rfl
  | opt | restorable => exact .bind snapshot_sameScopes fun _ => .pure rfl
  | rep body min max => exact continueRep_handles _ start #[]
  | positive | negative => exact .bind snapshot_sameScopes fun _ => .opening (.pure rfl)
  | rule => exact .bind (parts.emit _) fun _ => .opening (.pure rfl)
  | ref name => exact .bind (parts.lookupRule name) fun _ => .pure rfl
  | lazy cell => exact .bind (parts.force cell) fun _ => .pure rfl
  | ignored =>
    dsimp only [begin]
    split
    · exact .pure rfl
    · exact .opening (continueSkip_handles start _ false)
  | abstract => exact .fail .noMatcher

/-- The next move of a frame keeps the scope of the frame open or closes it. -/
theorem receive_handles (frame : Frame) (result : Option Match) :
    Handles frame.scope? (receive env frame result) := by
  have parts := hereditary_sameScopes env
  cases frame with
  | seqItem start rest found atomic =>
    cases result with
    | none => exact .pure rfl
    | some item =>
      cases rest with
      | nil => exact .conclude (parts.answer start item.stop _)
      | cons next rest =>
        dsimp only [receive]
        split
        · exact .pure rfl
        · exact .pure rfl
  | seqGap | repGap => exact .pure rfl
  | choice start index rest atomic =>
    cases result with
    | some found => exact .conclude (parts.answer start found.stop _)
    | none => cases rest <;> exact .pure rfl
  | opt start =>
    refine .conclude ?_
    rw [Clause.opt_eq]
    exact parts.bind (settle_sameScopes _ _) fun _ _ => parts.answer start _ _
  | repItem loop here found =>
    cases result with
    | none => exact .conclude (parts.repClause loop.min loop.start here found)
    | some item =>
      dsimp only [receive]
      split
      · exact .conclude (parts.failure (.repeatLimit _) _ _ none)
      · exact continueRep_handles loop item.stop _
  | positive body start =>
    refine .closing (.conclude ?_)
    rw [Clause.positive_eq]
    exact parts.bind (settle_sameScopes _ _) fun _ _ => parts.positiveNode body start result
  | negative body start =>
    refine .closing (.conclude ?_)
    rw [Clause.negative_eq]
    exact parts.bind (settle_sameScopes _ _) fun _ _ => parts.negativeNode body start result
  | restorable =>
    refine .conclude ?_
    rw [Clause.restorable_eq]
    exact parts.bind (settle_sameScopes _ _) fun _ _ => parts.pure result
  | push start => exact .conclude (parts.pushClause start result)
  | rule name kind start => exact .closing (.conclude (parts.ruleClause name kind start result))
  | skip here skipper rest progress =>
    cases result with
    | none => exact continueSkip_handles here rest progress
    | some found =>
      dsimp only [receive]
      split
      · exact continueSkip_handles here rest progress
      · exact .pure rfl
  | pairFirst => cases result <;> exact .pure rfl
  | pairSecond start first =>
    cases result with
    | none => exact .pure rfl
    | some second => exact .conclude (parts.answer start second.stop _)

/-! ### Moves -/

/-- A machine at work: the move that comes next, the frames that wait, and the state. -/
structure Configuration where
  move : Move
  frames : List Frame
  state : State

namespace Configuration

/-- The machine with an expression to match. -/
def initial (expr : Expr) (start : Position) (atomic : Bool) (state : State) : Configuration :=
  ⟨.enter expr start atomic, [], state⟩

/-- The step that the next move takes, and the frames that wait meanwhile. A result that no frame
waits for is the end. -/
def step? (env : Env) (config : Configuration) : Option (Action Move × List Frame) :=
  match config.move, config.frames with
  | .answer _, [] => none
  | .answer result, frame :: frames => some (receive env frame result, frames)
  | .enter expr here atomic, frames => some (begin env expr here atomic, frames)
  | .call frame expr here atomic, frames => some (begin env expr here atomic, frame :: frames)

/-- What the machine comes to from a configuration. -/
def run (env : Env) (fuel : Nat) (config : Configuration) : Halt :=
  Machine.run env fuel config.move config.frames config.state

/-- The step that comes next is broken off, in a state and while frames wait. -/
def BreaksOff (env : Env) (config : Configuration) (cause : Fault) (waiting : List Frame)
    (raised : State) : Prop :=
  ∃ step, config.step? env = some (step, waiting) ∧ step config.state = .fault cause raised

/-- The open scopes are those of a tracker and those of the frames that wait, with the one that the
next move puts on them. -/
def ScopesOpen (base : Tracker) (config : Configuration) : Prop :=
  ((base.enterFrames config.frames).enterAny config.move.scope?).SameScopes config.state.tracker

end Configuration

/-- The machine makes one move. -/
inductive Moves (env : Env) : Configuration → Configuration → Prop
  | step {config : Configuration} {step : Action Move} {waiting : List Frame} {next : Move}
      {after : State} (taken : config.step? env = some (step, waiting))
      (made : step config.state = .done next after) : Moves env config ⟨next, waiting, after⟩

/-- The machine makes some moves, or none. -/
def Reaches (env : Env) : Configuration → Configuration → Prop := Relation.ReflTransGen (Moves env)

theorem run_of_end {config : Configuration} (stopped : config.step? env = none) (fuel : Nat) :
    ∃ result, config.run env (fuel + 1) = .answered result config.state := by
  obtain ⟨move, frames, state⟩ := config
  cases move with
  | answer result =>
    cases frames with
    | nil => exact ⟨result, rfl⟩
    | cons frame frames => cases stopped
  | enter expr here atomic | call frame expr here atomic => cases stopped

theorem run_of_step? {config : Configuration} {step : Action Move} {waiting : List Frame}
    (taken : config.step? env = some (step, waiting)) (fuel : Nat) :
    config.run env (fuel + 1) = proceed env fuel step waiting config.state := by
  obtain ⟨move, frames, state⟩ := config
  cases move with
  | answer result =>
    cases frames with
    | nil => cases taken
    | cons frame frames =>
      cases taken
      rfl
  | enter expr here atomic | call frame expr here atomic =>
    cases taken
    rfl

theorem run_of_moves {config next : Configuration} (moves : Moves env config next) (fuel : Nat) :
    config.run env (fuel + 1) = next.run env fuel := by
  cases moves with
  | step taken made =>
    rw [run_of_step? taken, proceed, made]
    rfl

/-- A machine is halted by a fault exactly if it reaches a step that raises it. -/
theorem run_raised_iff {config : Configuration} {cause : Fault} {waiting : List Frame}
    {raised : State} :
    (∃ fuel, config.run env fuel = .raised cause waiting raised) ↔
      ∃ last, Reaches env config last ∧ last.BreaksOff env cause waiting raised := by
  constructor
  · rintro ⟨fuel, broken⟩
    -- The first step is broken off itself, or it makes a move and a later one is.
    induction fuel generalizing config with
    | zero => cases broken
    | succ fuel ih =>
      cases taken : config.step? env with
      | none =>
        obtain ⟨result, answered⟩ := run_of_end taken fuel
        cases answered.symm.trans broken
      | some next =>
        obtain ⟨step, meanwhile⟩ := next
        rw [run_of_step? taken, proceed] at broken
        cases made : step config.state with
        | done move middle =>
          rw [made] at broken
          have onward : Configuration.run env fuel ⟨move, meanwhile, middle⟩ =
              .raised cause waiting raised := broken
          obtain ⟨last, reached, breaks⟩ := ih onward
          exact ⟨last, .head (.step taken made) reached, breaks⟩
        | fault other state =>
          rw [made] at broken
          cases broken
          exact ⟨config, .refl, step, taken, made⟩
        | exhausted =>
          rw [made] at broken
          cases broken
  · rintro ⟨last, reached, step, taken, made⟩
    -- Going back from the last step, each move takes one more unit of fuel.
    induction reached using Relation.ReflTransGen.head_induction_on with
    | refl =>
      refine ⟨1, ?_⟩
      rw [run_of_step? taken, proceed, made]
    | head moves _ ih =>
      obtain ⟨fuel, broken⟩ := ih
      exact ⟨fuel + 1, (run_of_moves moves fuel).trans broken⟩

namespace Configuration

variable {base : Tracker} {config : Configuration}

theorem ScopesOpen.step {step : Action Move} {waiting : List Frame}
    (opened : config.ScopesOpen base) (taken : config.step? env = some (step, waiting)) :
    LeavesOpen (base.enterFrames waiting) (step config.state) := by
  obtain ⟨move, frames, state⟩ := config
  cases move with
  | answer result =>
    cases frames with
    | nil => cases taken
    | cons frame frames =>
      cases taken
      exact receive_handles frame result _ state opened
  | enter expr here atomic | call frame expr here atomic =>
    cases taken
    exact begin_handles expr here atomic _ state opened

/-- However far the machine has come, the scopes of the frames that wait are open. -/
theorem ScopesOpen.reaches {reached : Configuration} (opened : config.ScopesOpen base)
    (reaches : Reaches env config reached) : reached.ScopesOpen base := by
  induction reaches with
  | refl => exact opened
  | tail _ moves ih =>
    obtain ⟨taken, made⟩ := moves
    have left := ih.step taken
    rw [made] at left
    exact left

/-- When a fault is raised, the scopes of the frames that wait are open. -/
theorem scopes_of_breaksOff {expr : Expr} {start : Position} {atomic : Bool} {before raised : State}
    {last : Configuration} {cause : Fault} {waiting : List Frame}
    (reached : Reaches env (.initial expr start atomic before) last)
    (breaks : last.BreaksOff env cause waiting raised) :
    (before.tracker.enterFrames waiting).SameScopes raised.tracker := by
  obtain ⟨step, taken, made⟩ := breaks
  have first : (initial expr start atomic before).ScopesOpen before.tracker := .refl _
  have left := (first.reaches reached).step taken
  rw [made] at left
  exact left

end Configuration

end Machine

/-! ### Main result -/

section Main

variable {env : Env} {expr : Expr} {start : Position} {atomic : Bool} {before after : State}

theorem Leaves.sameScopes (leaves : Leaves env expr start atomic before after) :
    before.tracker.SameScopes after.tracker := by
  obtain ⟨fuel, ended⟩ := leaves_iff_eval.mp leaves
  exact sameScopes_of_eval ended

/-- A result is answered with those snapshots open that were open before. -/
theorem Finishes.marks_eq {result : Option Match}
    (finishes : Finishes env expr start atomic before result after) :
    after.stack.marks = before.stack.marks := by
  obtain ⟨fuel, ended⟩ := finishes_iff_eval.mp finishes
  exact ((Balanced.eval env fuel expr start atomic).grows ended).marks_eq

end Main

/-- The machine answers a result with those scopes of the tracker open that were open before, and
those snapshots of the stack. If it is halted by a fault instead, as by a rule that is not defined,
then a step that it reached raised the fault, and the scopes are open that were open before and
those of the frames that wait. When these frames are given up, only those are open that were open
before, and the failures are those that were held when the fault was raised. -/
theorem matching_closes_its_scopes (env : Env) (expr : Expr) (start : Position) (atomic : Bool)
    (before : State) :
    (∀ moves result after,
        Machine.run env moves (.enter expr start atomic) [] before = .answered result after →
        before.tracker.SameScopes after.tracker ∧ after.stack.marks = before.stack.marks) ∧
      ∀ moves cause waiting raised,
        Machine.run env moves (.enter expr start atomic) [] before = .raised cause waiting raised →
        (∃ last, Machine.Reaches env (.initial expr start atomic before) last ∧
            last.BreaksOff env cause waiting raised) ∧
          (before.tracker.enterFrames waiting).SameScopes raised.tracker ∧
          before.tracker.SameScopes (Machine.unwind waiting raised).tracker ∧
            raised.tracker.SameFailures (Machine.unwind waiting raised).tracker := by
  constructor
  · intro moves result after answered
    have finishes : Finishes env expr start atomic before result after :=
      ⟨moves, Halt.settle_eq_done_iff.mpr answered⟩
    exact ⟨finishes.leaves.sameScopes, finishes.marks_eq⟩
  · intro moves cause waiting raised halted
    have halts : ∃ fuel, (Machine.Configuration.initial expr start atomic before).run env fuel =
      .raised cause waiting raised := ⟨moves, halted⟩
    obtain ⟨last, reached, breaks⟩ := Machine.run_raised_iff.mp halts
    have opened := Machine.Configuration.scopes_of_breaksOff reached breaks
    exact ⟨⟨last, reached, breaks⟩, opened, Machine.sameScopes_unwind opened,
      Machine.sameFailures_unwind waiting raised⟩

/-- In an open rule another one is matched. It ends with the lookahead. Where the lookahead refers
to a rule that is not defined, the machine halts inside both, by which time a missing letter was
recorded; once the frames are given up, only the first rule is open. -/
theorem open_rule_stays_open :
    (∃ result after, Machine.run { input := ⟨0, #['a']⟩ } 20
        (.enter (.rule 0 "inner" .normal (.positive (.literal "b"))) (.start ⟨0, #['a']⟩) true) []
        { tracker := Tracker.enter {} (.rule "outer") } = .answered result after ∧
      after.tracker.rules = ["outer"] ∧ after.stack.marks = []) ∧
      ∃ waiting raised, Machine.run { input := ⟨0, #['a']⟩ } 20
          (.enter
            (.rule 0 "inner" .normal (.seq (.opt (.literal "b")) [.positive (.ref "missing")]))
            (.start ⟨0, #['a']⟩) true) [] { tracker := Tracker.enter {} (.rule "outer") } =
            .raised (.undefinedRule "missing") waiting raised ∧
        raised.tracker.rules = ["inner", "outer"] ∧ raised.tracker.kinds = [.positive] ∧
        raised.tracker.records = [⟨.literal "b" false, ["outer", "inner"], none⟩] ∧
        (Machine.unwind waiting raised).tracker.rules = ["outer"] ∧
        (Machine.unwind waiting raised).tracker.kinds = [] ∧
        (Machine.unwind waiting raised).tracker.records = raised.tracker.records := by
  constructor
  · refine ⟨_, _, rfl, ?_⟩
    obtain ⟨scopes, marks⟩ := (matching_closes_its_scopes { input := ⟨0, #['a']⟩ }
      (.rule 0 "inner" .normal (.positive (.literal "b"))) (.start ⟨0, #['a']⟩) true
      { tracker := Tracker.enter {} (.rule "outer") }).1 20 _ _ rfl
    exact ⟨scopes.rules.symm, marks⟩
  · refine ⟨_, _, rfl, ?_⟩
    obtain ⟨-, opened, closed, failures⟩ :=
      (matching_closes_its_scopes { input := ⟨0, #['a']⟩ }
        (.rule 0 "inner" .normal (.seq (.opt (.literal "b")) [.positive (.ref "missing")]))
        (.start ⟨0, #['a']⟩) true { tracker := Tracker.enter {} (.rule "outer") }).2 20 _ _ _ rfl
    exact ⟨opened.rules.symm, opened.kinds.symm, rfl, closed.rules.symm, closed.kinds.symm,
      failures.records.symm⟩

end Peg
