import Peg.Engine.Action

/-!
# Laws of actions

Actions compose as a monad, and an action that is made of two in a row ends as one would say: in
what the second makes of the value and the state of the first, or in the fault of the first. One
action approximates another if it can only differ from it by not ending; this is how actions with
less fuel compare with those that have more.
-/
namespace Peg

/-- Opens a scope, if one is given; `leaveAny` closes it. -/
def Tracker.enterAny (tracker : Tracker) : Option Scope → Tracker
  | some scope => tracker.enter scope
  | none => tracker

def Tracker.leaveAny (tracker : Tracker) : Option Scope → Tracker
  | some scope => tracker.leave scope
  | none => tracker

/-- The state after a lazy expression was looked up. -/
def State.remember (state : State) (cell : LazyCell) : State :=
  if cell ∈ state.forced then state else { state with forced := cell :: state.forced }

section Remember

variable (state : State) (cell : LazyCell)

@[simp] theorem State.remember_stack : (state.remember cell).stack = state.stack := by
  unfold remember
  split <;> rfl

@[simp] theorem State.remember_tracker : (state.remember cell).tracker = state.tracker := by
  unfold remember
  split <;> rfl

theorem State.mem_remember_forced {other : LazyCell} :
    other ∈ (state.remember cell).forced ↔ other = cell ∨ other ∈ state.forced := by
  unfold remember
  split
  next among => exact ⟨.inr, fun either => either.elim (fun same => same ▸ among) id⟩
  next => exact List.mem_cons

end Remember

namespace Action

variable {α β : Type}

theorem bind_of_done {first : Action α} {next : α → Action β} {state middle : State} {value : α}
    (ended : first state = .done value middle) : (first >>= next) state = next value middle := by
  simp only [bind, Action.bind, ended]

theorem bind_of_fault {first : Action α} {next : α → Action β} {state after : State} {cause : Fault}
    (broken : first state = .fault cause after) : (first >>= next) state = .fault cause after := by
  simp only [bind, Action.bind, broken]

theorem bind_of_exhausted {first : Action α} {next : α → Action β} {state : State}
    (endless : first state = .exhausted) : (first >>= next) state = .exhausted := by
  simp only [bind, Action.bind, endless]

theorem gets_eq_done {read : State → α} {state : State} {value : α} (same : read state = value) :
    Action.gets read state = .done value state := congrArg (Outcome.done · state) same

theorem textOf_of_some {env : Env} {expr : Expr} {state : State} {text : String}
    (shown : expr.text env.definitions state.forced = some text) :
    Action.textOf env expr state = .done text state := by
  rw [Action.textOf, bind_of_done (gets_eq_done shown)]
  rfl

theorem textOf_of_none {env : Env} {expr : Expr} {state : State}
    (endless : expr.text env.definitions state.forced = none) :
    Action.textOf env expr state = .fault .endlessText state := by
  rw [Action.textOf, bind_of_done (gets_eq_done endless)]
  rfl

theorem textOf_eq_done {env : Env} {expr : Expr} {state after : State} {text : String}
    (ended : Action.textOf env expr state = .done text after) :
    expr.text env.definitions state.forced = some text ∧ after = state := by
  cases shown : expr.text env.definitions state.forced with
  | some text =>
    rw [textOf_of_some shown] at ended
    cases ended
    exact ⟨rfl, rfl⟩
  | none =>
    rw [textOf_of_none shown] at ended
    cases ended

theorem id_map_action (action : Action α) : id <$> action = action := by
  funext state
  cases ended : action state <;> simp [Functor.map, Action.bind, Action.pure, ended]

theorem bind_assoc_action {γ : Type} (first : Action α) (second : α → Action β)
    (third : β → Action γ) :
    first >>= second >>= third = first >>= fun value => second value >>= third := by
  funext state
  cases ended : first state <;> simp only [bind, Action.bind, ended]

instance : LawfulMonad Action :=
  LawfulMonad.mk' Action id_map_action (fun _ _ => rfl) bind_assoc_action

/-- What ends was put together from parts that ended. -/
theorem bind_eq_done {first : Action α} {next : α → Action β} {state after : State} {value : β}
    (ended : (first >>= next) state = .done value after) :
    ∃ inner middle, first state = .done inner middle ∧ next inner middle = .done value after := by
  cases began : first state with
  | done inner middle => exact ⟨inner, middle, rfl, (bind_of_done began).symm.trans ended⟩
  | fault cause middle => rw [bind_of_fault began] at ended; cases ended
  | exhausted => rw [bind_of_exhausted began] at ended; cases ended

/-- The action answers a value, from some state. -/
def Answers (action : Action α) (value : α) : Prop :=
  ∃ before after, action before = .done value after

/-! ### Approximation -/

/-- The one action ends as the other does, where it ends. -/
def Approximates (less more : Action α) : Prop :=
  ∀ state, less state = .exhausted ∨ more state = less state

theorem Approximates.refl (action : Action α) : Approximates action action := fun _ => .inr rfl

theorem Approximates.exhausted (action : Action α) : Approximates Action.exhausted action :=
  fun _ => .inl rfl

theorem Approximates.trans {less middle more : Action α} (early : Approximates less middle)
    (late : Approximates middle more) : Approximates less more := by
  intro state
  rcases early state with endless | same
  · exact .inl endless
  · rw [← same]
    exact late state

theorem Approximates.bind {less more : Action α} {next later : α → Action β}
    (first : Approximates less more) (rest : ∀ value, Approximates (next value) (later value)) :
    Approximates (less >>= next) (more >>= later) := by
  intro state
  rcases first state with endless | same
  · exact .inl (bind_of_exhausted endless)
  · -- Both first parts end alike, so that the second parts start in the same state.
    cases ended : less state with
    | done value middle =>
      rw [bind_of_done ended, bind_of_done (same.trans ended)]
      exact rest value middle
    | fault cause after =>
      exact .inr (by rw [bind_of_fault ended, bind_of_fault (same.trans ended)])
    | exhausted => exact .inl (bind_of_exhausted ended)

theorem Approximates.within {less more : Action α} (scope : Scope)
    (body : Approximates less more) :
    Approximates (Action.within scope less) (Action.within scope more) := by
  intro state
  simp only [Action.within]
  rcases body { state with tracker := state.tracker.enter scope } with endless | same
  · left
    rw [endless]
  · right
    rw [same]

theorem Approximates.withinAny {less more : Action α} (scope? : Option Scope)
    (body : Approximates less more) :
    Approximates (Action.withinAny scope? less) (Action.withinAny scope? more) := by
  cases scope? with
  | none => exact body
  | some scope => exact body.within scope

end Action

end Peg
