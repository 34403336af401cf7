import Peg.Proofs.Eval.Tracking
import Peg.Proofs.Machine.Agreement

/-!
# Ends of matching

What the machine comes to, however many moves that takes: a result, or a fault that breaks it off,
and the state that is left in either case. Since the machine ends as the recursive evaluation does,
what holds of the evaluation for any fuel holds of these ends.
-/
namespace Peg

/-- Matching an expression is broken off by a fault, in a state. -/
def Breaks (env : Env) (expr : Expr) (start : Position) (atomic : Bool) (before : State)
    (cause : Fault) (after : State) : Prop :=
  ∃ moves, run env moves expr start atomic before = .fault cause after

/-- Matching an expression comes to its end, with a result or by a fault, in a state. -/
def Leaves (env : Env) (expr : Expr) (start : Position) (atomic : Bool) (before after : State) :
    Prop :=
  ∃ moves, (run env moves expr start atomic before).state? = some after

/-- Matching an expression comes to an end in both of two states or in neither, and then with the
same result or by the same fault, in states that are related. -/
def EndAlike (related : State → State → Prop) (env : Env) (expr : Expr) (start : Position)
    (atomic : Bool) (left right : State) : Prop :=
  ((∃ moves, run env moves expr start atomic left ≠ .exhausted) ↔
      ∃ moves, run env moves expr start atomic right ≠ .exhausted) ∧
    ∀ moves others, run env moves expr start atomic left ≠ .exhausted →
      run env others expr start atomic right ≠ .exhausted →
      (run env moves expr start atomic left).Related related
        (run env others expr start atomic right)

section Ends

variable {env : Env} {expr : Expr} {start : Position} {atomic : Bool} {before after : State}

/-- The machine and the evaluation come to the same ends. -/
theorem exists_run_iff_exists_eval (holds : Outcome (Option Match) → Prop)
    (ended : ¬ holds .exhausted) :
    (∃ moves, holds (run env moves expr start atomic before)) ↔
      ∃ fuel, holds (eval env fuel expr start atomic before) := by
  constructor
  · rintro ⟨moves, ran⟩
    obtain ⟨fuel, same⟩ := Machine.eval_of_run fun endless => ended (endless ▸ ran)
    exact ⟨fuel, same.symm ▸ ran⟩
  · rintro ⟨fuel, evaluated⟩
    obtain ⟨moves, same⟩ := Machine.run_of_eval fun endless => ended (endless ▸ evaluated)
    exact ⟨moves, same.symm ▸ evaluated⟩

theorem leaves_iff_eval : Leaves env expr start atomic before after ↔
    ∃ fuel, (eval env fuel expr start atomic before).state? = some after :=
  exists_run_iff_exists_eval (fun outcome => outcome.state? = some after) nofun

theorem breaks_iff_eval {cause : Fault} : Breaks env expr start atomic before cause after ↔
    ∃ fuel, eval env fuel expr start atomic before = .fault cause after :=
  exists_run_iff_exists_eval (fun outcome => outcome = .fault cause after) nofun

theorem Finishes.leaves {result : Option Match}
    (finishes : Finishes env expr start atomic before result after) :
    Leaves env expr start atomic before after := by
  obtain ⟨moves, ran⟩ := finishes
  exact ⟨moves, congrArg Outcome.state? ran⟩

/-- What is left took some fuel, so that the expression can be taken apart. -/
theorem Leaves.exists_eval (leaves : Leaves env expr start atomic before after) :
    ∃ fuel, (eval env (fuel + 1) expr start atomic before).state? = some after := by
  obtain ⟨fuel, ended⟩ := leaves_iff_eval.mp leaves
  cases fuel with
  | zero => cases ended
  | succ fuel => exact ⟨fuel, ended⟩

end Ends

/-! ### Ends in related states -/

namespace Outcome.Related

variable {α : Type} {related weaker : State → State → Prop} {left right : Outcome α}

theorem mono (alike : left.Related related right)
    (weaken : ∀ {first second}, left.state? = some first → right.state? = some second →
      related first second → weaker first second) : left.Related weaker right := by
  cases alike with
  | done value states => exact .done value (weaken rfl rfl states)
  | fault cause states => exact .fault cause (weaken rfl rfl states)
  | exhausted => exact .exhausted

/-- What answers on the one side answers on the other. -/
theorem eq_done {value : α} {after : State} (alike : left.Related related (.done value after)) :
    ∃ also, left = .done value also ∧ related also after := by
  cases alike with
  | done value states => exact ⟨_, rfl, states⟩

theorem ne_exhausted_iff (alike : left.Related related right) :
    left ≠ .exhausted ↔ right ≠ .exhausted := by
  cases alike with
  | done | fault => exact ⟨nofun, nofun⟩
  | exhausted => exact Iff.rfl

end Outcome.Related

theorem endAlike_of_eval {related : State → State → Prop} {env : Env} {expr : Expr}
    {start : Position} {atomic : Bool} {left right : State}
    (alike : ∀ fuel, (eval env fuel expr start atomic left).Related related
      (eval env fuel expr start atomic right)) :
    EndAlike related env expr start atomic left right := by
  constructor
  · rw [exists_run_iff_exists_eval (· ≠ .exhausted) (fun endless => endless rfl),
      exists_run_iff_exists_eval (· ≠ .exhausted) (fun endless => endless rfl)]
    exact exists_congr fun fuel => (alike fuel).ne_exhausted_iff
  · intro moves others ran also
    -- With the fuel for the one side the evaluation of the other comes to its end as well.
    obtain ⟨fuel, same⟩ := Machine.eval_of_run ran
    have ends := alike fuel
    have ended := ends.ne_exhausted_iff.mp (same.symm ▸ ran)
    obtain ⟨enough, equal⟩ := Machine.run_of_eval ended
    rw [same, ← equal, Machine.run_unique (equal.symm ▸ ended) also] at ends
    exact ends

end Peg
