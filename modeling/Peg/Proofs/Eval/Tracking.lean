import Peg.Proofs.Action.Simulation
import Peg.Proofs.Eval.Hereditary
import Peg.Proofs.Tracker.Parts

/-!
# What matching does to the tracker

Matching touches the tracker only by recording failures and by opening and closing scopes, and it
never looks at it. Two consequences are drawn for any expression, each by one induction.

* Before and after: a relation between a tracker and what becomes of it holds of any matching if it
  is kept by a record and by a scope that is opened before and closed afterwards. So the scopes that
  matching opens are closed again.
* Side by side: if two states differ in their trackers alone, and records and scopes keep the
  trackers related, then matching goes the same way in both and leaves them related.
-/
namespace Peg

/-- The state in which an action ends, be it with an answer or with a fault. -/
def Outcome.state? {α : Type} : Outcome α → Option State
  | .done _ state => some state
  | .fault _ state => some state
  | .exhausted => none

/-! ### Before and after -/

/-- A relation between a tracker and what becomes of it in several steps or in none. -/
structure Tracker.Course (drift : Tracker → Tracker → Prop) : Prop where
  refl : ∀ tracker, drift tracker tracker
  trans : ∀ {first second third}, drift first second → drift second third → drift first third

/-- Such a relation that is kept by the records that matching makes, and by scopes. -/
structure Tracker.Drift (drift : Tracker → Tracker → Prop) : Prop extends
    Tracker.Course drift where
  record : ∀ tracker {failure : Failure}, failure.Ordinary → ∀ offset kind,
    drift tracker (tracker.recordFailure failure offset kind)
  within : ∀ {before after} scope, drift (before.enter scope) after →
    drift before (after.leave scope)

/-- However an action ends, it takes the tracker to one that is related to it. -/
def Action.Drifts {α : Type} (drift : Tracker → Tracker → Prop) (action : Action α) : Prop :=
  ∀ before after, (action before).state? = some after → drift before.tracker after.tracker

namespace Action.Drifts

variable {α β : Type} {drift : Tracker → Tracker → Prop}

section Course

variable (course : Tracker.Course drift)

include course

/-- What leaves the tracker alone. -/
theorem of_modify {change : State → State}
    (same : ∀ state, (change state).tracker = state.tracker) :
    Drifts drift (Action.modify change) := by
  intro before after ended
  cases ended
  rw [same]
  exact course.refl _

theorem gets (read : State → α) : Drifts drift (Action.gets read) := by
  intro before after ended
  cases ended
  exact course.refl _

theorem pure (value : α) : Drifts drift (Pure.pure value : Action α) := gets course fun _ => value

theorem fail (cause : Fault) : Drifts drift (Action.fail cause : Action α) := by
  intro before after ended
  cases ended
  exact course.refl _

omit course in
theorem exhausted : Drifts drift (Action.exhausted : Action α) := by
  intro before after ended
  cases ended

theorem bind_answers {first : Action α} {next : α → Action β} (early : Drifts drift first)
    (late : ∀ value, first.Answers value → Drifts drift (next value)) :
    Drifts drift (first >>= next) := by
  intro before after ended
  cases began : first before with
  | done value middle =>
    rw [Action.bind_of_done began] at ended
    have reached := early before middle (congrArg Outcome.state? began)
    exact course.trans reached (late value ⟨before, middle, began⟩ middle after ended)
  | fault cause middle =>
    rw [Action.bind_of_fault began] at ended
    exact early before after ((congrArg Outcome.state? began).trans ended)
  | exhausted =>
    rw [Action.bind_of_exhausted began] at ended
    cases ended

theorem bind {first : Action α} {next : α → Action β} (early : Drifts drift first)
    (late : ∀ value, Drifts drift (next value)) : Drifts drift (first >>= next) :=
  bind_answers course early fun value _ => late value

theorem ofExcept {ε : Type} (fault : ε → Fault) (result : Except ε α) :
    Drifts drift (Action.ofExcept fault result) := by
  cases result with
  | ok value => exact pure course value
  | error error => exact fail course (fault error)

theorem emit (env : Env) (event : TraceEvent) : Drifts drift (Action.emit env event) := by
  unfold Action.emit
  split
  · exact of_modify course fun _ => rfl
  · exact pure course ()

theorem textOf (env : Env) (expr : Expr) : Drifts drift (Action.textOf env expr) := by
  refine bind course (gets course _) fun text => ?_
  cases text with
  | some text => exact pure course text
  | none => exact fail course .endlessText

theorem force (env : Env) (cell : LazyCell) : Drifts drift (Action.force env cell) := by
  refine bind course (ofExcept course .build _) fun target => ?_
  refine bind course (of_modify course ?_) fun _ => pure course target
  intro state
  split <;> rfl

theorem changeStack (change : Stack Span → Except StackError (Stack Span)) :
    Drifts drift (Action.changeStack change) := by
  refine bind course (gets course _) fun stack => ?_
  exact bind course (ofExcept course .stack _) fun _ => of_modify course fun _ => rfl

theorem settle (keep : Option Match → Bool) (result : Option Match) :
    Drifts drift (Action.settle keep result) := by
  unfold Action.settle
  split
  · exact changeStack course _
  · exact changeStack course _

theorem transaction (keep : Option Match → Bool) {body : Action (Option Match)}
    (inner : Drifts drift body) : Drifts drift (Action.transaction keep body) := by
  refine bind course (of_modify course fun _ => rfl) fun _ => ?_
  refine bind course inner fun result => ?_
  exact bind course (settle course keep result) fun _ => pure course result

end Course

section Drift

variable (allowed : Tracker.Drift drift)

include allowed

theorem track {failure : Failure} (ordinary : failure.Ordinary) (offset : Int)
    (kind : Option Lookahead) :
    Drifts drift (Action.track (·.recordFailure failure offset kind)) := by
  intro before after ended
  cases ended
  exact allowed.record _ ordinary offset kind

theorem within (scope : Scope) {body : Action α} (inner : Drifts drift body) :
    Drifts drift (Action.within scope body) := by
  intro before after ended
  unfold Action.within at ended
  -- An answer and a fault close the scope alike.
  cases began : body { before with tracker := before.tracker.enter scope } with
  | done value middle | fault cause middle =>
    rw [began] at ended
    cases ended
    have inside := inner _ middle (congrArg Outcome.state? began)
    exact allowed.within scope inside
  | exhausted =>
    rw [began] at ended
    cases ended

theorem hereditary (env : Env) : Hereditary env (Drifts drift) where
  pure := pure allowed.toCourse
  bind := bind_answers allowed.toCourse
  exhausted := exhausted
  fail cause _ := fail allowed.toCourse cause
  peek := gets allowed.toCourse _
  slice _ _ := gets allowed.toCourse _
  pop := of_modify allowed.toCourse fun _ => rfl
  clear := of_modify allowed.toCourse fun _ => rfl
  push _ := of_modify allowed.toCourse fun _ => rfl
  track := track allowed
  failedPredicate positive _ _ :=
    bind allowed.toCourse (textOf allowed.toCourse env _) fun label =>
      bind allowed.toCourse (track allowed (.predicate positive label) _ _) fun _ =>
        pure allowed.toCourse none
  emit := emit allowed.toCourse env
  force := force allowed.toCourse env
  within := within allowed
  transaction := transaction allowed.toCourse

theorem eval (env : Env) (fuel : Nat) (expr : Expr) (start : Position) (atomic : Bool) :
    Drifts drift (Peg.eval env fuel expr start atomic) :=
  (hereditary allowed env).eval fuel expr start atomic

end Drift

end Action.Drifts

theorem Tracker.sameScopes_drift : Tracker.Drift Tracker.SameScopes where
  refl := .refl
  trans := .trans
  record tracker {failure} _ := Tracker.sameScopes_recordFailure tracker failure
  within {before after} scope inside := by
    -- Opening the scope is undone by closing it.
    have closed := inside.leave scope
    rwa [Tracker.leave_enter] at closed

/-- Matching closes the scopes that it opens, whether it answers or is broken off. -/
theorem sameScopes_of_eval {env : Env} {fuel : Nat} {expr : Expr} {start : Position}
    {atomic : Bool} {before after : State}
    (ended : (eval env fuel expr start atomic before).state? = some after) :
    before.tracker.SameScopes after.tracker :=
  Action.Drifts.eval Tracker.sameScopes_drift env fuel expr start atomic before after ended

/-! ### Side by side -/

/-- A relation between two trackers that is kept if the same is done to both. -/
structure Tracker.Simulation (related : Tracker → Tracker → Prop) : Prop where
  record : ∀ {left right} failure offset kind, related left right →
    related (left.recordFailure failure offset kind) (right.recordFailure failure offset kind)
  enter : ∀ {left right} scope, related left right → related (left.enter scope) (right.enter scope)
  leave : ∀ {left right} scope, related left right → related (left.leave scope) (right.leave scope)

/-- States that differ in their trackers alone, which are related. -/
structure State.Tracked (related : Tracker → Tracker → Prop) (left right : State) : Prop where
  stack : left.stack = right.stack
  trace : left.trace = right.trace
  forced : left.forced = right.forced
  tracker : related left.tracker right.tracker

/-- An action that ends alike in states that differ in their trackers alone. -/
def Action.Respects {α : Type} (related : Tracker → Tracker → Prop) (action : Action α) : Prop :=
  ∀ left right, State.Tracked related left right →
    (action left).Related (State.Tracked related) (action right)

namespace Action.Respects

variable {α β : Type} {related : Tracker → Tracker → Prop}

theorem pure (value : α) : Respects related (Pure.pure value : Action α) := Simulates.pure value

theorem fail (cause : Fault) : Respects related (Action.fail cause : Action α) :=
  Simulates.fail cause

theorem exhausted : Respects related (Action.exhausted : Action α) := Simulates.exhausted

/-- Reading what does not depend on the tracker. -/
theorem gets {read : State → α}
    (common : ∀ {left right : State}, left.Tracked related right → read left = read right) :
    Respects related (Action.gets read) := Simulates.gets common

theorem modify {change : State → State}
    (kept : ∀ {left right : State}, left.Tracked related right →
      (change left).Tracked related (change right)) :
    Respects related (Action.modify change) := Simulates.modify kept

theorem bind_answers {first : Action α} {next : α → Action β} (early : Respects related first)
    (late : ∀ value, first.Answers value → Respects related (next value)) :
    Respects related (first >>= next) := Simulates.bind_answers early late

theorem bind {first : Action α} {next : α → Action β} (early : Respects related first)
    (late : ∀ value, Respects related (next value)) : Respects related (first >>= next) :=
  Simulates.bind early late

theorem changeItems (change : Stack Span → Stack Span) :
    Respects related (Action.changeItems change) := by
  refine modify fun tracked => ?_
  exact ⟨congrArg change tracked.stack, tracked.trace, tracked.forced, tracked.tracker⟩

theorem ofExcept {ε : Type} (fault : ε → Fault) (result : Except ε α) :
    Respects related (Action.ofExcept fault result) := Simulates.ofExcept fault result

theorem emit (env : Env) (event : TraceEvent) : Respects related (Action.emit env event) := by
  unfold Action.emit
  split
  · refine modify fun tracked => ?_
    exact ⟨tracked.stack, congrArg (event :: ·) tracked.trace, tracked.forced, tracked.tracker⟩
  · exact pure ()

theorem force (env : Env) (cell : LazyCell) : Respects related (Action.force env cell) := by
  refine bind (ofExcept .build _) fun target => bind (modify ?_) fun _ => pure target
  intro left right tracked
  rw [tracked.forced]
  split
  · exact tracked
  · exact ⟨tracked.stack, tracked.trace, rfl, tracked.tracker⟩

theorem changeStack (change : Stack Span → Except StackError (Stack Span)) :
    Respects related (Action.changeStack change) := by
  refine bind (gets fun tracked => tracked.stack) fun stack => ?_
  refine bind (ofExcept .stack _) fun changed => modify fun tracked => ?_
  exact ⟨rfl, tracked.trace, tracked.forced, tracked.tracker⟩

theorem transaction (keep : Option Match → Bool) {body : Action (Option Match)}
    (inner : Respects related body) : Respects related (Action.transaction keep body) := by
  refine bind (changeItems Stack.snapshot) fun _ => bind inner fun result => ?_
  refine bind ?_ fun _ => pure result
  unfold Action.settle
  split
  · exact changeStack _
  · exact changeStack _

variable (simulation : Tracker.Simulation related)

include simulation

theorem track (failure : Failure) (offset : Int) (kind : Option Lookahead) :
    Respects related (Action.track (·.recordFailure failure offset kind)) := by
  refine modify fun tracked => ?_
  have recorded := simulation.record failure offset kind tracked.tracker
  exact ⟨tracked.stack, tracked.trace, tracked.forced, recorded⟩

theorem within (scope : Scope) {body : Action α} (inner : Respects related body) :
    Respects related (Action.within scope body) := by
  intro left right tracked
  have opened : State.Tracked related { left with tracker := left.tracker.enter scope }
      { right with tracker := right.tracker.enter scope } :=
    ⟨tracked.stack, tracked.trace, tracked.forced, simulation.enter scope tracked.tracker⟩
  have closed : ∀ {left right : State}, left.Tracked related right →
      State.Tracked related { left with tracker := left.tracker.leave scope }
        { right with tracker := right.tracker.leave scope } := fun tracked =>
    ⟨tracked.stack, tracked.trace, tracked.forced, simulation.leave scope tracked.tracker⟩
  have began := inner _ _ opened
  unfold Action.within
  generalize body { left with tracker := left.tracker.enter scope } = outcome at began
  generalize body { right with tracker := right.tracker.enter scope } = other at began
  cases began with
  | done value after => exact .done value (closed after)
  | fault cause after => exact .fault cause (closed after)
  | exhausted => exact .exhausted

omit simulation in
theorem textOf (env : Env) (expr : Expr) : Respects related (Action.textOf env expr) := by
  refine bind (gets fun tracked => by rw [tracked.forced]) fun text => ?_
  cases text with
  | some text => exact pure text
  | none => exact fail .endlessText

theorem hereditary (env : Env) : Hereditary env (Respects related) where
  pure := pure
  bind := bind_answers
  exhausted := exhausted
  fail cause _ := fail cause
  peek := gets fun tracked => by rw [tracked.stack]
  slice _ _ := gets fun tracked => by rw [tracked.stack]
  pop := changeItems _
  clear := changeItems _
  push _ := changeItems _
  track _ := track simulation _
  failedPredicate _ _ _ :=
    bind (textOf env _) fun _ => bind (track simulation _ _ _) fun _ => pure none
  emit := emit env
  force := force env
  within := within simulation
  transaction := transaction

theorem eval (env : Env) (fuel : Nat) (expr : Expr) (start : Position) (atomic : Bool) :
    Respects related (Peg.eval env fuel expr start atomic) :=
  (hereditary simulation env).eval fuel expr start atomic

end Action.Respects

/-- The states differ in their trackers alone, whatever these are. -/
def State.SameButTracker : State → State → Prop := State.Tracked fun _ _ => True

/-- What the tracker holds does not matter to matching. -/
theorem eval_sameButTracker {env : Env} {fuel : Nat} {expr : Expr} {start : Position}
    {atomic : Bool} (state : State) (tracker : Tracker) :
    (eval env fuel expr start atomic state).Related State.SameButTracker
      (eval env fuel expr start atomic { state with tracker := tracker }) := by
  have blind : Tracker.Simulation fun _ _ => True :=
    ⟨fun _ _ _ _ => trivial, fun _ _ => trivial, fun _ _ => trivial⟩
  exact Action.Respects.eval blind env fuel expr start atomic _ _ ⟨rfl, rfl, rfl, trivial⟩

end Peg
