import Peg.Proofs.Action.Laws

/-!
# Conditions on what actions answer

A condition on the value that an action answers, in whatever state the action starts. It comes in
two strengths with the same rules. An action meets it if every value that it does answer satisfies
it, and it meets it totally if besides it always answers one: it neither is broken off nor fails to
end.
-/
namespace Peg.Action

variable {α β : Type} {total : Bool}

/-- What the action answers satisfies the condition. If total, the action does answer something. -/
structure Meets (total : Bool) (action : Action α) (holds : α → Prop) : Prop where
  sound : ∀ {state after : State} {value : α}, action state = .done value after → holds value
  ends : total = true → ∀ state, ∃ value after, action state = .done value after

namespace Meets

theorem mono {action : Action α} {holds weaker : α → Prop} (meets : Meets total action holds)
    (weaken : ∀ value, holds value → weaker value) : Meets total action weaker :=
  ⟨fun ended => weaken _ (meets.sound ended), meets.ends⟩

theorem pure {value : α} {holds : α → Prop} (satisfied : holds value) :
    Meets total (Pure.pure value) holds := by
  constructor
  · intro state after answer ended
    cases ended
    exact satisfied
  · intro _ state
    exact ⟨value, state, rfl⟩

theorem bind {first : Action α} {next : α → Action β} {holds : α → Prop} {later : β → Prop}
    (early : Meets total first holds)
    (late : ∀ value, holds value → Meets total (next value) later) :
    Meets total (first >>= next) later := by
  constructor
  · intro state after answer ended
    obtain ⟨value, middle, began, went⟩ := bind_eq_done ended
    exact (late value (early.sound began)).sound went
  · intro whole state
    obtain ⟨value, middle, began⟩ := early.ends whole state
    obtain ⟨answer, after, went⟩ := (late value (early.sound began)).ends whole middle
    exact ⟨answer, after, (bind_of_done began).trans went⟩

/-- Of any action it can be said that it answers something, if it answers. -/
theorem any (action : Action α) : Meets false action fun _ => True := ⟨fun _ => trivial, nofun⟩

/-- Nothing is answered where an action does not end. -/
theorem exhausted {holds : α → Prop} : Meets false Action.exhausted holds :=
  ⟨fun ended => (nomatch ended), nofun⟩

theorem fail (cause : Fault) : Meets false (Action.fail cause : Action α) fun _ => False :=
  ⟨fun ended => (nomatch ended), nofun⟩

/-- An action of which nothing is asked but that it answers. -/
theorem modify (change : State → State) : Meets total (Action.modify change) fun _ => True :=
  ⟨fun _ => trivial, fun _ state => ⟨(), change state, rfl⟩⟩

theorem emit (env : Env) (event : TraceEvent) :
    Meets total (Action.emit env event) fun _ => True := by
  unfold Action.emit
  split
  · exact modify _
  · exact pure trivial

theorem within (scope : Scope) {body : Action α} {holds : α → Prop}
    (inner : Meets total body holds) : Meets total (Action.within scope body) holds := by
  constructor
  · intro state after answer ended
    unfold Action.within at ended
    split at ended
    next value middle began =>
      cases ended
      exact inner.sound began
    · cases ended
    · cases ended
  · intro whole state
    obtain ⟨value, after, ended⟩ :=
      inner.ends whole { state with tracker := state.tracker.enter scope }
    refine ⟨value, { after with tracker := after.tracker.leave scope }, ?_⟩
    simp only [Action.within, ended]

theorem withinAny (scope? : Option Scope) {body : Action α} {holds : α → Prop}
    (inner : Meets total body holds) : Meets total (Action.withinAny scope? body) holds := by
  cases scope? with
  | none => exact inner
  | some scope => exact inner.within scope

end Meets

end Peg.Action
