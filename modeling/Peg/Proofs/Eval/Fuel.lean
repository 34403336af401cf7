import Peg.Engine.Eval
import Peg.Proofs.Action.Laws

/-!
# More fuel

With more fuel the recursive evaluation ends as before, where it ended at all. The proof follows the
evaluation: each loop is monotone in what matches its parts and in the fuel of its own, and the fuel
of the parts grows with that of the whole.
-/
namespace Peg.Eval

open Peg.Action (Approximates)

/-- One way to match expressions approximates another, whatever is matched. -/
def Matcher.Approximates (less more : Matcher) : Prop :=
  ∀ expr start atomic, Action.Approximates (less expr start atomic) (more expr start atomic)

variable {less more : Matcher} (matchers : less.Approximates more)

include matchers

theorem gap_approximates (here : Position) : Approximates (gap less here) (gap more here) :=
  (matchers .ignored here false).bind fun _ => .refl _

theorem gapUnless_approximates (forbidden : Bool) (here : Position) :
    Approximates (gapUnless less forbidden here) (gapUnless more forbidden here) := by
  cases forbidden
  · exact gap_approximates matchers here
  · exact .refl _

theorem items_approximates (atomic : Bool) (start : Position) (exprs : List Expr)
    (here : Position) (found : Array (Option Node)) :
    Approximates (items less atomic start exprs here found)
      (items more atomic start exprs here found) := by
  induction exprs generalizing here found with
  | nil => exact .refl _
  | cons expr rest ih =>
    refine (gapUnless_approximates matchers _ here).bind fun here => ?_
    refine (matchers expr here atomic).bind fun result => ?_
    cases result with
    | none => exact .refl _
    | some item => exact ih item.stop (found.push item.node)

theorem alternatives_approximates (atomic : Bool) (start : Position) (index : Nat)
    (exprs : List Expr) :
    Approximates (alternatives less atomic start index exprs)
      (alternatives more atomic start index exprs) := by
  induction exprs generalizing index with
  | nil => exact .refl _
  | cons expr rest ih =>
    refine (matchers expr start atomic).bind fun result => ?_
    cases result with
    | none => exact ih (index + 1)
    | some found => exact .refl _

theorem repetition_approximates (env : Env) (body : Expr) (min : Nat) (max : Option Nat)
    (atomic : Bool) (start : Position) {fuel extra : Nat} (le : fuel ≤ extra) (here : Position)
    (found : Array (Option Node)) :
    Approximates (repetition env less body min max atomic start fuel here found)
      (repetition env more body min max atomic start extra here found) := by
  induction fuel generalizing extra here found with
  | zero => exact .exhausted _
  | succ fuel ih =>
    -- More fuel is at least one unit, too, and goes through the same round.
    obtain ⟨extra, rfl⟩ := Nat.exists_eq_add_of_lt le
    simp only [repetition]
    split
    · exact .refl _
    · refine (gapUnless_approximates matchers _ here).bind fun here => ?_
      refine (matchers body here atomic).bind fun result => ?_
      cases result with
      | none => exact .refl _
      | some item =>
        dsimp only
        split
        · exact .refl _
        · exact ih (by omega) item.stop (found.push item.node)

theorem skipOne_approximates (skipper : Expr) {fuel extra : Nat} (le : fuel ≤ extra)
    (here : Position) (progress : Bool) :
    Approximates (skipOne less skipper fuel here progress)
      (skipOne more skipper extra here progress) := by
  induction fuel generalizing extra here progress with
  | zero => exact .exhausted _
  | succ fuel ih =>
    obtain ⟨extra, rfl⟩ := Nat.exists_eq_add_of_lt le
    refine (matchers skipper here true).bind fun result => ?_
    cases result with
    | none => exact .refl _
    | some found =>
      dsimp only
      split
      · exact .refl _
      · exact ih (by omega) found.stop true

theorem skipEach_approximates {fuel extra : Nat} (le : fuel ≤ extra) (skippers : List Expr)
    (here : Position) (progress : Bool) :
    Approximates (skipEach less fuel skippers here progress)
      (skipEach more extra skippers here progress) := by
  induction skippers generalizing here progress with
  | nil => exact .refl _
  | cons skipper rest ih =>
    exact (skipOne_approximates matchers skipper le here progress).bind fun reached =>
      ih reached.1 reached.2

theorem skipAll_approximates (skippers : List Expr) {fuel extra : Nat} (le : fuel ≤ extra)
    (here : Position) :
    Approximates (skipAll less skippers fuel here) (skipAll more skippers extra here) := by
  induction fuel generalizing extra here with
  | zero => exact .exhausted _
  | succ fuel ih =>
    obtain ⟨extra, rfl⟩ := Nat.exists_eq_add_of_lt le
    refine (skipEach_approximates matchers (by omega) skippers here false).bind fun reached => ?_
    dsimp only
    split
    · exact ih (by omega) reached.1
    · exact .refl _

theorem ignored_approximates (env : Env) {fuel extra : Nat} (le : fuel ≤ extra)
    (start : Position) (atomic : Bool) :
    Approximates (ignored env less fuel start atomic) (ignored env more extra start atomic) := by
  unfold ignored
  split
  · exact .refl _
  · exact ((skipAll_approximates matchers env.skippers le start).within .muted).bind
      fun _ => .refl _

theorem pair_approximates (body : Expr) (start : Position) (atomic : Bool) :
    Approximates (pair less body start atomic) (pair more body start atomic) := by
  refine (matchers body start atomic).bind fun result => ?_
  cases result with
  | none => exact .refl _
  | some first => exact (matchers body first.stop atomic).bind fun _ => .refl _

omit matchers

/-- Of a repetition, what is to be ignored is seen by the parts only. -/
theorem repetition_ignoring (env : Env) (whitespace comment : Option Expr) (run : Matcher)
    (body : Expr) (min : Nat) (max : Option Nat) (atomic : Bool) (start : Position) (fuel : Nat)
    (here : Position) (found : Array (Option Node)) :
    repetition { env with whitespace, comment } run body min max atomic start fuel here found =
      repetition env run body min max atomic start fuel here found := by
  induction fuel generalizing here found with
  | zero => rfl
  | succ fuel ih =>
    simp only [repetition, ih]
    rfl

/-- One level of the evaluation approximates another one, perhaps with other text to be ignored, if
the parts do and skipping ignored text does. -/
theorem eval_succ_approximates (env : Env) (whitespace comment : Option Expr) {fuel extra : Nat}
    (le : fuel ≤ extra)
    (parts : Matcher.Approximates (eval env fuel) (eval { env with whitespace, comment } extra))
    (gaps : ∀ start atomic, Approximates (ignored env (eval env fuel) fuel start atomic)
      (ignored { env with whitespace, comment } (eval { env with whitespace, comment } extra) extra
        start atomic)) :
    Matcher.Approximates (eval env (fuel + 1))
      (eval { env with whitespace, comment } (extra + 1)) := by
  intro expr start atomic
  cases expr with
  | terminal leaf => exact .refl _
  | seq first rest => exact items_approximates parts atomic start (first :: rest) start #[]
  | choice first rest => exact alternatives_approximates parts atomic start 0 (first :: rest)
  | opt body => exact (Approximates.refl _).bind fun _ => (parts _ _ _).bind fun _ => .refl _
  | rep body min max =>
    have rounds := repetition_approximates parts env body min max atomic start le start #[]
    rwa [← repetition_ignoring env whitespace comment (eval _ extra)] at rounds
  | positive body =>
    exact (Approximates.refl _).bind fun _ => ((parts _ _ _).within _).bind fun _ => .refl _
  | negative body =>
    exact (Approximates.refl _).bind fun _ => ((parts _ _ _).within _).bind fun _ => .refl _
  | restorable body =>
    exact (Approximates.refl _).bind fun _ => (parts _ _ _).bind fun _ => .refl _
  | push body => exact (parts _ _ _).bind fun _ => .refl _
  | rule tag name kind body =>
    exact (Approximates.refl _).bind fun _ => ((parts _ _ _).withinAny _).bind fun _ => .refl _
  | ref name => exact (Approximates.refl _).bind fun target => parts target start atomic
  | lazy cell => exact (Approximates.refl _).bind fun target => parts target start atomic
  | ignored => exact gaps start atomic
  | pair body => exact pair_approximates parts body start atomic
  | abstract => exact .refl _

/-- More fuel keeps every answer and every fault. -/
theorem eval_approximates (env : Env) {fuel extra : Nat} (le : fuel ≤ extra) :
    Matcher.Approximates (eval env fuel) (eval env extra) := by
  induction fuel generalizing extra with
  | zero => exact fun _ _ _ => .exhausted _
  | succ fuel ih =>
    obtain ⟨extra, rfl⟩ := Nat.exists_eq_add_of_lt le
    -- The parts, and the loops over them, get the fuel that is left on either side.
    have parts : Matcher.Approximates (eval env fuel) (eval env (fuel + extra)) := ih (by omega)
    exact eval_succ_approximates env env.whitespace env.comment (by omega) parts
      (ignored_approximates parts env (by omega))

end Peg.Eval
