import Peg.Proofs.Machine.Lockstep

/-!
# What actions tell

Only rules write to the trace. So whatever relation between a trace and what becomes of it is kept
by writing nothing, and by one action after another, holds of all that is not made of rules, and it
holds of matching altogether as soon as it holds of matching a rule. What the trace becomes may
differ for an action that answers and one that is broken off by a fault.
-/
namespace Peg

/-- How the trace before an action and the one after it are related. -/
structure Telling where
  /-- The relation if the action answers. -/
  whole : List TraceEvent → List TraceEvent → Prop
  /-- The relation if a fault breaks it off. -/
  broken : Fault → List TraceEvent → List TraceEvent → Prop
  refl : ∀ trace, whole trace trace
  trans : ∀ {first second third}, whole first second → whole second third → whole first third
  stop : ∀ cause trace, broken cause trace trace
  late : ∀ {cause first second third}, whole first second → broken cause second third →
    broken cause first third

/-- An action that ends so took the trace from the given one to a related one. -/
def Outcome.Tells {α : Type} (telling : Telling) (trace : List TraceEvent) : Outcome α → Prop
  | .done _ after => telling.whole trace after.trace
  | .fault cause after => telling.broken cause trace after.trace
  | .exhausted => True

/-- However the action ends, it takes the trace to a related one. -/
def Action.Tells {α : Type} (telling : Telling) (action : Action α) : Prop :=
  ∀ before, (action before).Tells telling before.trace

/-- What writes nothing. -/
def Telling.silent : Telling where
  whole before after := after = before
  broken _ before after := after = before
  refl _ := rfl
  trans early late := late.trans early
  stop _ _ := rfl
  late early late := late.trans early

namespace Action.Tells

variable {α β : Type} {telling : Telling}

theorem pure (value : α) : Tells telling (Pure.pure value : Action α) :=
  fun before => telling.refl before.trace

theorem fail (cause : Fault) : Tells telling (Action.fail cause : Action α) :=
  fun before => telling.stop cause before.trace

theorem exhausted : Tells telling (Action.exhausted : Action α) := fun _ => trivial

theorem gets (read : State → α) : Tells telling (Action.gets read) :=
  fun before => telling.refl before.trace

theorem modify {change : State → State} (same : ∀ state, (change state).trace = state.trace) :
    Tells telling (Action.modify change) := by
  intro before
  change telling.whole before.trace (change before).trace
  rw [same]
  exact telling.refl before.trace

theorem bind_answers {first : Action α} {next : α → Action β} (early : Tells telling first)
    (later : ∀ value, first.Answers value → Tells telling (next value)) :
    Tells telling (first >>= next) := by
  intro before
  have began := early before
  cases outcome : first before with
  | done value middle =>
    rw [outcome] at began
    rw [Action.bind_of_done outcome]
    have went := later value ⟨before, middle, outcome⟩ middle
    cases ended : next value middle with
    | done answer after =>
      rw [ended] at went
      exact telling.trans began went
    | fault cause after =>
      rw [ended] at went
      exact telling.late began went
    | exhausted => trivial
  | fault cause after =>
    -- The second action is not reached.
    rw [outcome] at began
    rw [Action.bind_of_fault outcome]
    exact began
  | exhausted =>
    rw [Action.bind_of_exhausted outcome]
    trivial

theorem bind {first : Action α} {next : α → Action β} (early : Tells telling first)
    (later : ∀ value, Tells telling (next value)) : Tells telling (first >>= next) :=
  bind_answers early fun value _ => later value

theorem ofExcept {ε : Type} (fault : ε → Fault) (result : Except ε α) :
    Tells telling (Action.ofExcept fault result) := by
  cases result with
  | ok value => exact pure value
  | error error => exact fail (fault error)

theorem changeStack (change : Stack Span → Except StackError (Stack Span)) :
    Tells telling (Action.changeStack change) :=
  bind (gets _) fun _ => bind (ofExcept .stack _) fun _ => modify fun _ => rfl

theorem settle (keep : Option Match → Bool) (result : Option Match) :
    Tells telling (Action.settle keep result) := by
  unfold Action.settle
  split
  · exact changeStack _
  · exact changeStack _

theorem force (env : Env) (cell : LazyCell) : Tells telling (Action.force env cell) := by
  refine bind (ofExcept .build _) fun target => bind (modify fun state => ?_) fun _ => pure target
  split <;> rfl

theorem within (scope : Scope) {body : Action α} (inner : Tells telling body) :
    Tells telling (Action.within scope body) := by
  intro before
  have ended := inner { before with tracker := before.tracker.enter scope }
  unfold Action.within
  -- Opening a scope and closing it leave the trace as it is.
  cases outcome : body { before with tracker := before.tracker.enter scope } with
  | done value after | fault cause after =>
    rw [outcome] at ended
    exact ended
  | exhausted => trivial

theorem textOf (env : Env) (expr : Expr) : Tells telling (Action.textOf env expr) := by
  refine bind (gets _) fun text => ?_
  cases text with
  | some text => exact pure text
  | none => exact fail .endlessText

theorem elementary (telling : Telling) (env : Env) : Elementary env (Tells telling) where
  pure := pure
  bind := bind_answers
  exhausted := exhausted
  fail cause _ := fail cause
  peek := gets _
  slice _ _ := gets _
  pop := modify fun _ => rfl
  clear := modify fun _ => rfl
  push _ := modify fun _ => rfl
  track _ _ _ := modify fun _ => rfl
  failedPredicate _ _ _ :=
    bind (textOf env _) fun _ => bind (modify fun _ => rfl) fun _ => pure none
  force := force env
  within := within
  transaction keep _ inner :=
    bind (modify fun _ => rfl) fun _ => bind inner fun result =>
      bind (settle keep result) fun _ => pure result

end Action.Tells

/-! ### Without the trace -/

/-- The environment in which no trace is kept. -/
def Env.untraced (env : Env) : Env := { env with tracing := false }

/-- Where no trace is kept, whatever the machine does tells nothing. -/
theorem Action.Tells.stepwise (telling : Telling) (env : Env) :
    Machine.Stepwise env.untraced (Tells telling) where
  toElementary := elementary telling env.untraced
  emit _ := pure ()
  snapshot := modify fun _ => rfl
  settle := settle
  enter _ := modify fun _ => rfl
  leave _ := modify fun _ => rfl

end Peg
