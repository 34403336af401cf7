import Peg.Proofs.Action.Laws

/-!
# Actions side by side

An action simulates itself along a relation of states if it ends alike in any two states that are
related: with the same value or by the same fault, and in states that are related again. What this
says depends on the relation alone. The more two related states may differ, the less of the state it
is that the action looks at.

There is one thing that an action may be unable to do in one of two states and able to do in the
other: to show an expression, if the states differ in what was looked up. Where that is excused,
nothing more is asked of an action that is broken off on the left for want of a text.
-/
namespace Peg

/-- The same end, in states that are related. -/
inductive Outcome.Related {α : Type} (related : State → State → Prop) :
    Outcome α → Outcome α → Prop
  | done (value : α) {left right : State} (states : related left right) :
      Related related (.done value left) (.done value right)
  | fault (cause : Fault) {left right : State} (states : related left right) :
      Related related (.fault cause left) (.fault cause right)
  | exhausted : Related related .exhausted .exhausted

/-- The outcome is that an expression was to be shown which has no text. -/
def Outcome.Endless {α : Type} (outcome : Outcome α) : Prop :=
  ∃ after, outcome = .fault .endlessText after

/-- The same end, in states that are related, unless it is excused that the one on the left has no
text to show. -/
def Outcome.RelatedUnless {α : Type} (excuse : Prop) (related : State → State → Prop)
    (left right : Outcome α) : Prop :=
  (excuse ∧ left.Endless) ∨ left.Related related right

namespace Action

variable {α β : Type} {excuse : Prop} {related : State → State → Prop}

theorem bind_endless {first : Action α} {next : α → Action β} {state : State}
    (endless : (first state).Endless) : ((first >>= next) state).Endless := by
  obtain ⟨after, broken⟩ := endless
  exact ⟨after, bind_of_fault broken⟩

theorem Approximates.endless {less more : Action α} (approximates : less.Approximates more)
    {state : State} (endless : (less state).Endless) : (more state).Endless := by
  obtain ⟨after, broken⟩ := endless
  rcases approximates state with exhausted | same
  · cases exhausted.symm.trans broken
  · exact ⟨after, same ▸ broken⟩

/-- In related states, the action ends alike. -/
def Simulates (related : State → State → Prop) (action : Action α) : Prop :=
  ∀ left right, related left right → (action left).Related related (action right)

/-- In related states, the action ends alike, unless it is excused that it has no text to show. -/
def SimulatesUnless (excuse : Prop) (related : State → State → Prop) (action : Action α) : Prop :=
  ∀ left right, related left right → (action left).RelatedUnless excuse related (action right)

theorem Simulates.unless {action : Action α} (simulates : Simulates related action) :
    SimulatesUnless excuse related action :=
  fun left right states => .inr (simulates left right states)

theorem simulatesUnless_false {action : Action α} :
    SimulatesUnless False related action ↔ Simulates related action := by
  refine ⟨fun simulates left right states => ?_, Simulates.unless⟩
  exact (simulates left right states).resolve_left fun excused => excused.1

namespace SimulatesUnless

theorem bind_answers {first : Action α} {next : α → Action β}
    (early : SimulatesUnless excuse related first)
    (late : ∀ value, first.Answers value → SimulatesUnless excuse related (next value)) :
    SimulatesUnless excuse related (first >>= next) := by
  intro left right states
  rcases early left right states with ⟨excused, endless⟩ | began
  · exact .inl ⟨excused, bind_endless endless⟩
  generalize reached : first left = outcome at began
  generalize met : first right = other at began
  cases began with
  | done value middle =>
    rw [bind_of_done reached, bind_of_done met]
    exact late value ⟨left, _, reached⟩ _ _ middle
  | fault cause after =>
    rw [bind_of_fault reached, bind_of_fault met]
    exact .inr (.fault cause after)
  | exhausted =>
    rw [bind_of_exhausted reached, bind_of_exhausted met]
    exact .inr .exhausted

theorem bind {first : Action α} {next : α → Action β}
    (early : SimulatesUnless excuse related first)
    (late : ∀ value, SimulatesUnless excuse related (next value)) :
    SimulatesUnless excuse related (first >>= next) :=
  bind_answers early fun value _ => late value

end SimulatesUnless

namespace Simulates

theorem pure (value : α) : Simulates related (Pure.pure value : Action α) :=
  fun _ _ states => .done value states

theorem fail (cause : Fault) : Simulates related (Action.fail cause : Action α) :=
  fun _ _ states => .fault cause states

theorem exhausted : Simulates related (Action.exhausted : Action α) := fun _ _ _ => .exhausted

/-- Reading what related states have in common. -/
theorem gets {read : State → α}
    (common : ∀ {left right}, related left right → read left = read right) :
    Simulates related (Action.gets read) := by
  intro left right states
  have answers : read right = read left := (common states).symm
  simp only [Action.gets, answers]
  exact .done (read left) states

theorem modify {change : State → State}
    (kept : ∀ {left right}, related left right → related (change left) (change right)) :
    Simulates related (Action.modify change) := fun _ _ states => .done () (kept states)

theorem bind_answers {first : Action α} {next : α → Action β} (early : Simulates related first)
    (late : ∀ value, first.Answers value → Simulates related (next value)) :
    Simulates related (first >>= next) :=
  simulatesUnless_false.mp
    (early.unless.bind_answers fun value answered => (late value answered).unless)

theorem bind {first : Action α} {next : α → Action β} (early : Simulates related first)
    (late : ∀ value, Simulates related (next value)) : Simulates related (first >>= next) :=
  bind_answers early fun value _ => late value

theorem ofExcept {ε : Type} (fault : ε → Fault) (result : Except ε α) :
    Simulates related (Action.ofExcept fault result) := by
  cases result with
  | ok value => exact pure value
  | error error => exact fail (fault error)

end Simulates

end Action

end Peg
