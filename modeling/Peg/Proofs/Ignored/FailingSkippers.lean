import Peg.Proofs.Coupling.Parses
import Peg.Proofs.Eval.Fuel
import Peg.Proofs.Machine.Agreement
import Peg.Proofs.Machine.Blindness

/-!
# Ignored text that never matches

Where nothing is to be ignored, the loop that skips ignored text is bypassed. To ignore something
that never matches comes to the same: the loop is entered, in a muted scope, but each attempt fails
and leaves the state as it was, so that it goes once around and ends where it began.

Two evaluations are compared whose skippers are the same but for some that never match. They skip
ignored text in step, where the one may try skippers that the other does not have; for this it takes
up to two levels of fuel more. As the relation between the skippers is symmetric, each of the
evaluations follows the other.

## Main result

White space, comments or both that never match may be left out, with the same result and the same
changes of the state.
-/
namespace Peg

open Peg.Action (Approximates)

/-- An expression that never matches, and does nothing else. -/
def Expr.never : Expr := .terminal .alwaysFail

/-- Two lists of skippers that are the same but for some that never match. -/
inductive SameSkippers : List Expr → List Expr → Prop
  | nil : SameSkippers [] []
  | keep {skipper : Expr} {first second : List Expr} :
      SameSkippers first second → SameSkippers (skipper :: first) (skipper :: second)
  | left {first second : List Expr} :
      SameSkippers first second → SameSkippers (.never :: first) second
  | right {first second : List Expr} :
      SameSkippers first second → SameSkippers first (.never :: second)

theorem SameSkippers.symm {first second : List Expr} (same : SameSkippers first second) :
    SameSkippers second first := by
  induction same with
  | nil => exact .nil
  | keep _ ih => exact .keep ih
  | left _ ih => exact .right ih
  | right _ ih => exact .left ih

theorem SameSkippers.refl (skippers : List Expr) : SameSkippers skippers skippers := by
  induction skippers with
  | nil => exact .nil
  | cons skipper rest ih => exact .keep ih

/-! ### Rounds -/

namespace Eval

section Rounds

variable {less more : Matcher} (matchers : less.Approximates more)
  (fails : ∀ here, more .never here true = pure none) {first second : List Expr}
  (same : SameSkippers first second)

/-- Where a skipper never matches, its turn is over at once. -/
theorem skipOne_never (fails : ∀ here, more .never here true = pure none) (fuel : Nat)
    (here : Position) (progress : Bool) :
    skipOne more .never (fuel + 1) here progress = pure (here, progress) := by
  simp only [skipOne, fails, pure_bind]

include matchers fails

/-- The turn of a skipper that never matches is over at once, if the fuel is enough for it. -/
theorem skipOne_never_approximates (fuel : Nat) (here : Position) (progress : Bool) :
    Approximates (skipOne less .never fuel here progress) (pure (here, progress)) := by
  rw [← skipOne_never fails fuel here progress]
  exact skipOne_approximates matchers .never (Nat.le_succ fuel) here progress

include same

theorem skipEach_approximates_of_same {fuel extra : Nat} (le : fuel ≤ extra) (here : Position)
    (progress : Bool) :
    Approximates (skipEach less fuel first here progress)
      (skipEach more (extra + 1) second here progress) := by
  induction same generalizing here progress with
  | nil => exact .refl _
  | keep _ ih =>
    exact (skipOne_approximates matchers _ (by omega) here progress).bind fun reached =>
      ih reached.1 reached.2
  | left _ ih =>
    exact (skipOne_never_approximates matchers fails fuel here progress).bind fun reached =>
      ih reached.1 reached.2
  | right _ ih =>
    simp only [skipEach, skipOne_never fails, pure_bind]
    exact ih here progress

theorem skipAll_approximates_of_same {fuel extra : Nat} (le : fuel ≤ extra) (here : Position) :
    Approximates (skipAll less first fuel here) (skipAll more second (extra + 1) here) := by
  induction fuel generalizing extra here with
  | zero => exact .exhausted _
  | succ fuel ih =>
    obtain ⟨extra, rfl⟩ := Nat.exists_eq_add_of_lt le
    refine (skipEach_approximates_of_same matchers fails same (by omega) here false).bind
      fun reached => ?_
    dsimp only
    split
    · exact ih (by omega) reached.1
    · exact .refl _

end Rounds

/-! ### Entering the loop or not -/

/-- The loop over all skippers, entered even if there is none. -/
def muted (run : Matcher) (skippers : List Expr) (fuel : Nat) (start : Position) :
    Action (Option Match) := do
  let stop ← Action.within .muted (skipAll run skippers fuel start)
  return some ⟨stop, none⟩

/-- To go through no skipper is to do nothing. -/
theorem muted_nil (run : Matcher) (fuel : Nat) (start : Position) :
    muted run [] (fuel + 1) start = pure (some ⟨start, none⟩) := by
  have nothing : Action.within .muted (skipAll run [] (fuel + 1) start) = pure start := by
    funext state
    change Outcome.done start
      { state with tracker := (state.tracker.enter .muted).leave .muted } = _
    rw [state.tracker.leave_enter]
    rfl
  rw [muted, nothing, pure_bind]

/-- The loop is entered where something is to be ignored, and might be entered where nothing is. -/
theorem ignored_eq_muted (env : Env) (run : Matcher) (fuel : Nat) (start : Position) :
    ignored env run (fuel + 1) start false = muted run env.skippers (fuel + 1) start := by
  unfold ignored
  split
  next bypassed =>
    rw [Bool.false_or, List.isEmpty_iff] at bypassed
    rw [bypassed, muted_nil]
  next => rfl

theorem ignored_approximates_of_same {left right : Env} {less more : Matcher}
    (matchers : less.Approximates more) (fails : ∀ here, more .never here true = pure none)
    (same : SameSkippers left.skippers right.skippers) {fuel extra : Nat} (le : fuel ≤ extra)
    (start : Position) (atomic : Bool) :
    Approximates (ignored left less fuel start atomic)
      (ignored right more (extra + 2) start atomic) := by
  cases atomic with
  | true => exact .refl _
  | false =>
    -- One more level lets the loop be entered on the left even if it was bypassed without fuel.
    have entered : Approximates (ignored left less fuel start false)
        (muted less left.skippers (fuel + 1) start) := by
      rw [← ignored_eq_muted]
      exact ignored_approximates (fun _ _ _ => .refl _) left (Nat.le_succ fuel) start false
    have rounds : Approximates (muted less left.skippers (fuel + 1) start)
        (ignored right more (extra + 2) start false) := by
      rw [ignored_eq_muted]
      exact ((skipAll_approximates_of_same matchers fails same (by omega) start).within
        .muted).bind fun _ => .refl _
    exact entered.trans rounds

/-! ### Whole evaluations -/

/-- An evaluation follows another one with skippers that are the same but for some that never match,
two levels of fuel behind. -/
theorem eval_approximates_of_same (env : Env) {whitespace comment : Option Expr}
    (same : SameSkippers env.skippers (env.ignoring whitespace comment).skippers) (fuel : Nat) :
    Matcher.Approximates (eval env fuel) (eval (env.ignoring whitespace comment) (fuel + 2)) := by
  induction fuel with
  | zero => exact fun _ _ _ => .exhausted _
  | succ fuel ih =>
    exact eval_succ_approximates env whitespace comment (by omega) ih
      (ignored_approximates_of_same ih (fun _ => rfl) same (Nat.le_refl fuel))

end Eval

/-! ### Main result -/

section Main

variable (env : Env) {expr : Expr} {start : Position} {atomic : Bool} {before : State}
  {whitespace comment : Option Expr}

/-- What the one machine comes to, the other one comes to. -/
theorem run_reaches_of_same
    (same : SameSkippers env.skippers (env.ignoring whitespace comment).skippers) {moves : Nat}
    (ended : run env moves expr start atomic before ≠ .exhausted) :
    ∃ others, run (env.ignoring whitespace comment) others expr start atomic before =
      run env moves expr start atomic before := by
  obtain ⟨fuel, evaluated⟩ := Machine.eval_of_run ended
  rw [← evaluated] at ended
  have follows := (Eval.eval_approximates_of_same env same fuel expr start atomic before
    ).resolve_left ended
  rw [← follows] at ended
  obtain ⟨others, ran⟩ := Machine.run_of_eval ended
  exact ⟨others, ran.trans (follows.trans evaluated)⟩

/-- Machines whose skippers are the same but for some that never match end together. -/
theorem run_together_of_same
    (same : SameSkippers env.skippers (env.ignoring whitespace comment).skippers) :
    EndTogether (· = ·) (run env · expr start atomic before)
      (run (env.ignoring whitespace comment) · expr start atomic before) := by
  refine ⟨⟨?_, ?_⟩, ?_⟩
  · rintro ⟨moves, ended⟩
    obtain ⟨others, reached⟩ := run_reaches_of_same env same ended
    exact ⟨others, reached ▸ ended⟩
  · -- The first environment is the second one with its own skippers back in place.
    have back : SameSkippers (env.ignoring whitespace comment).skippers
        ((env.ignoring whitespace comment).ignoring env.whitespace env.comment).skippers :=
      same.symm
    rintro ⟨moves, ended⟩
    obtain ⟨others, reached⟩ := run_reaches_of_same (env.ignoring whitespace comment) back ended
    exact ⟨others, reached ▸ ended⟩
  · intro moves others ended also
    obtain ⟨enough, reached⟩ := run_reaches_of_same env same ended
    rw [← reached] at ended ⊢
    exact Machine.run_unique ended also

end Main

/-- To ignore something that always fails is to ignore nothing. As white space, as a comment or as
both, whatever the other one is, it may be left out: from every place and in every state, matching
an expression comes to an end with it if it does without it, and then with the same result or fault,
the same tree, and the same stack, tracker and trace. -/
theorem failing_skippers_ignore_nothing (env : Env) (expr : Expr) (start : Position)
    (atomic : Bool) (before : State) :
    (∀ comment, EndTogether (· = ·)
        (run (env.ignoring (some .never) comment) · expr start atomic before)
        (run (env.ignoring none comment) · expr start atomic before)) ∧
      (∀ whitespace, EndTogether (· = ·)
        (run (env.ignoring whitespace (some .never)) · expr start atomic before)
        (run (env.ignoring whitespace none) · expr start atomic before)) ∧
      EndTogether (· = ·)
        (run (env.ignoring (some .never) (some .never)) · expr start atomic before)
        (run (env.ignoring none none) · expr start atomic before) := by
  refine ⟨fun comment => ?_, fun whitespace => ?_, ?_⟩
  · exact run_together_of_same (env.ignoring (some .never) comment) (.left (.refl _))
  · have same : SameSkippers (env.ignoring whitespace (some .never)).skippers
        (env.ignoring whitespace none).skippers := by
      cases whitespace with
      | none => exact .left .nil
      | some skipper => exact .keep (.left .nil)
    exact run_together_of_same (env.ignoring whitespace (some .never)) same
  · exact run_together_of_same (env.ignoring (some .never) (some .never)) (.left (.left .nil))

end Peg
