import Peg.Proofs.Action.Conditions
import Peg.Proofs.Machine.Unwinding

/-!
# Repetitions that meet the limit

A repetition that has more matches than the limit allows fails. That is the only move of the machine
in which the limit plays a part. The failure goes to the frame that waits for the repetition, and
from there outwards. Most frames only pass it on. A choice with alternatives left, an optional part,
a negative lookahead, a repetition that has enough matches and the skipping of ignored text go on,
however, as after any other failure.

So matching that ends with a match is the same without a limit, unless such a frame was waiting when
a repetition met it.
-/
namespace Peg

/-- The environment without a limit of repetitions. -/
def Env.unlimited (env : Env) : Env := { env with repeatLimit := none }

/-- The frame goes on if what it waits for fails. -/
def Frame.recovers : Frame → Bool
  | .choice _ _ rest _ => !rest.isEmpty
  | .repItem loop _ found => decide (loop.min ≤ found.size)
  | .opt _ | .negative .. | .seqGap .. | .repGap .. | .skip .. => true
  | .seqItem .. | .positive .. | .restorable | .push _ | .rule .. | .pairFirst .. |
    .pairSecond .. => false

namespace Machine

variable {env : Env}

/-! ### Failures that are passed on -/

section Failures

open Peg.Action (Meets)

theorem conclude_fails {clause : Action (Option Match)} (fails : Meets false clause (· = none)) :
    Meets false (conclude clause) (· = .answer none) :=
  fails.bind fun _ failed => .pure (congrArg Move.answer failed)

/-- A frame that does not go on answers a failure with a failure. -/
theorem receive_fails {frame : Frame} (passes : frame.recovers = false) :
    Meets false (receive env frame none) (· = .answer none) := by
  cases frame with
  | seqItem | pairFirst | pairSecond => exact .pure rfl
  | choice start index rest atomic =>
    cases rest with
    | nil => exact .pure rfl
    | cons next rest => cases passes
  | repItem loop here found =>
    have short : found.size < loop.min := Nat.lt_of_not_le (of_decide_eq_false passes)
    refine conclude_fails ?_
    rw [Clause.rep, if_pos short]
    exact .pure rfl
  | positive body start =>
    refine (Meets.any _).bind fun _ _ => conclude_fails ?_
    exact (Meets.any _).bind fun _ _ => (Meets.any _).bind fun _ _ =>
      (Meets.any _).bind fun _ _ => .pure rfl
  | restorable => exact conclude_fails ((Meets.any _).bind fun _ _ => .pure rfl)
  | push start => exact conclude_fails (.pure rfl)
  | rule name kind start =>
    refine (Meets.any _).bind fun _ _ => conclude_fails ?_
    exact (Meets.any _).bind fun _ _ => .pure rfl
  | opt | negative | seqGap | repGap | skip => cases passes

namespace Configuration

/-- A repetition has just had one more match than the limit allows. -/
def meetsLimit (env : Env) (config : Configuration) : Bool :=
  match config.move, config.frames with
  | .answer (some _), .repItem _ _ found :: _ =>
    (Clause.beyondLimit env (found.size + 1)).isSome
  | _, _ => false

/-- A repetition has just met the limit, and a frame behind it will go on as after any failure. -/
def absorbsLimit (env : Env) (config : Configuration) : Bool :=
  config.meetsLimit env && config.frames.tail.any Frame.recovers

/-- The machine is about to fail: no frame takes the failure up. -/
def Fails (config : Configuration) : Prop :=
  config.move = .answer none ∧ ∀ frame ∈ config.frames, frame.recovers = false

theorem Fails.moves {config next : Configuration} (fails : config.Fails)
    (moves : Moves env config next) : next.Fails := by
  obtain ⟨move, frames, state⟩ := config
  obtain ⟨rfl, passing⟩ := fails
  cases moves with
  | step taken made =>
    cases frames with
    | nil => cases taken
    | cons frame frames =>
      cases taken
      rw [List.forall_mem_cons] at passing
      exact ⟨(receive_fails passing.1).sound made, passing.2⟩

/-- No match comes of a failure that no frame takes up. -/
theorem Fails.run_ne {config : Configuration} (fails : config.Fails) (fuel : Nat) (found : Match)
    (after : State) : config.run env fuel ≠ .answered (some found) after := by
  induction fuel generalizing config with
  | zero => rintro ⟨⟩
  | succ fuel ih =>
    obtain ⟨move, frames, state⟩ := config
    obtain ⟨rfl, passing⟩ := fails
    cases frames with
    | nil => rintro ⟨⟩
    | cons frame frames =>
      rw [run_of_step? rfl, proceed]
      cases made : receive env frame none state with
      | done next after => exact ih (Fails.moves ⟨rfl, passing⟩ (.step rfl made))
      | fault cause after => rintro ⟨⟩
      | exhausted => rintro ⟨⟩

/-- A repetition that meets the limit where nothing takes its failure up makes everything fail. -/
theorem run_ne_of_meetsLimit {config : Configuration} (met : config.meetsLimit env = true)
    (passing : config.frames.tail.any Frame.recovers = false) (fuel : Nat) (found : Match)
    (after : State) : config.run env fuel ≠ .answered (some found) after := by
  obtain ⟨move, frames, state⟩ := config
  unfold meetsLimit at met
  split at met
  · next item loop here earlier waiting move frames =>
    subst move frames
    obtain ⟨limit, beyond⟩ := Option.isSome_iff_exists.mp met
    cases fuel with
    | zero => rintro ⟨⟩
    | succ fuel =>
      have stopped : receive env (.repItem loop here earlier) (some item) =
          conclude (Clause.repLimit limit item.stop) := by
        simp only [receive, Array.size_push, beyond]
      have failed : Meets false (conclude (Clause.repLimit limit item.stop))
          (· = .answer none) := conclude_fails ((Meets.any _).bind fun _ _ => .pure rfl)
      rw [run_of_step? rfl, proceed, stopped]
      cases made : conclude (Clause.repLimit limit item.stop) state with
      | done next later =>
        have failing : Fails ⟨next, waiting, later⟩ :=
          ⟨failed.sound made, fun frame among =>
            Bool.eq_false_iff.mpr (List.any_eq_false.mp passing frame among)⟩
        exact failing.run_ne fuel found after
      | fault cause later => rintro ⟨⟩
      | exhausted => rintro ⟨⟩
  · cases met

/-- What comes of no configuration that the machine reaches comes of none before it. -/
theorem run_ne_of_reaches {config last : Configuration} {halt : Halt}
    (reaches : Reaches env config last) (never : ∀ fuel, last.run env fuel ≠ halt)
    (ends : halt ≠ .exhausted) (fuel : Nat) : config.run env fuel ≠ halt := by
  induction reaches using Relation.ReflTransGen.head_induction_on generalizing fuel with
  | refl => exact never fuel
  | head moves _ ih =>
    cases fuel with
    | zero => exact ends.symm
    | succ fuel => rw [run_of_moves moves]; exact ih fuel

end Configuration

end Failures

/-! ### Without a limit -/

theorem begin_unlimited (env : Env) (expr : Expr) (here : Position) (atomic : Bool) :
    begin env.unlimited expr here atomic = begin env expr here atomic := by
  cases expr <;> rfl

namespace Configuration

theorem step?_unlimited {config : Configuration} (unmet : config.meetsLimit env = false) :
    config.step? env.unlimited = config.step? env := by
  obtain ⟨move, frames, state⟩ := config
  cases move with
  | enter expr here atomic | call frame expr here atomic =>
    simp only [step?, begin_unlimited]
  | answer result =>
    cases frames with
    | nil => rfl
    | cons frame frames =>
      have same : receive env.unlimited frame result = receive env frame result := by
        cases frame with
        | repItem loop here found =>
          cases result with
          | none => rfl
          | some item =>
            have within : Clause.beyondLimit env (found.size + 1) = none :=
              Option.isNone_iff_eq_none.mp (by simpa [meetsLimit] using unmet)
            simp only [receive, Array.size_push, within]
            rfl
        | _ => rfl
      simp only [step?, same]

/-- At its end, the machine answers the same in any environment. -/
theorem run_of_stopped {other : Env} {config : Configuration} (stopped : config.step? env = none)
    (fuel : Nat) : config.run other fuel = config.run env fuel := by
  obtain ⟨move, frames, state⟩ := config
  cases move with
  | enter expr here atomic | call frame expr here atomic => cases stopped
  | answer result =>
    cases frames with
    | nil => cases fuel <;> rfl
    | cons frame frames => cases stopped

/-- A match that comes of no failure at the limit comes without a limit as well. -/
theorem run_unlimited {config : Configuration}
    (kept : ∀ reached, Reaches env config reached → reached.absorbsLimit env = false)
    {fuel : Nat} {found : Match} {after : State}
    (ended : config.run env fuel = .answered (some found) after) :
    config.run env.unlimited fuel = .answered (some found) after := by
  induction fuel generalizing config with
  | zero => cases ended
  | succ fuel ih =>
    have unmet : config.meetsLimit env = false := by
      cases met : config.meetsLimit env with
      | false => rfl
      | true =>
        have passing := kept config .refl
        rw [absorbsLimit, met, Bool.true_and] at passing
        exact absurd ended (run_ne_of_meetsLimit met passing _ found after)
    have same := step?_unlimited unmet
    cases taken : config.step? env with
    | none => exact (run_of_stopped taken _).trans ended
    | some next =>
      obtain ⟨step, waiting⟩ := next
      rw [run_of_step? taken, proceed] at ended
      rw [run_of_step? (same.trans taken), proceed]
      cases made : step config.state with
      | done move later =>
        rw [made] at ended
        exact ih (fun reached reaches => kept reached (.head (.step taken made) reaches)) ended
      | fault cause later => rw [made] at ended; cases ended
      | exhausted => rw [made] at ended; cases ended

/-! ### Following the machine -/

/-- The configurations that the machine goes through, the first `fuel` moves long. -/
def trail (env : Env) : (fuel : Nat) → Configuration → List Configuration
  | 0, config => [config]
  | fuel + 1, config =>
    config :: match config.step? env with
      | none => []
      | some (step, waiting) =>
        match step config.state with
        | .done next after => trail env fuel ⟨next, waiting, after⟩
        | .fault .. | .exhausted => []

theorem reaches_of_mem_trail {config reached : Configuration} {fuel : Nat}
    (member : reached ∈ trail env fuel config) : Reaches env config reached := by
  induction fuel generalizing config with
  | zero =>
    obtain rfl := List.mem_singleton.mp member
    exact .refl
  | succ fuel ih =>
    rcases List.mem_cons.mp member with rfl | later
    · exact .refl
    · split at later
      · cases later
      · next step waiting taken =>
        split at later
        · next next after made => exact .head (.step taken made) (ih later)
        · cases later
        · cases later

/-- A machine that ends reaches what it goes through until then. -/
theorem reaches_iff_mem_trail {config reached : Configuration} {fuel : Nat}
    {result : Option Match} {after : State} (ended : config.run env fuel = .answered result after) :
    Reaches env config reached ↔ reached ∈ trail env fuel config := by
  refine ⟨fun reaches => ?_, reaches_of_mem_trail⟩
  induction fuel generalizing config with
  | zero => cases ended
  | succ fuel ih =>
    rcases reaches.cases_head with rfl | ⟨next, moves, reaches⟩
    · exact List.mem_cons_self
    · rw [run_of_moves moves] at ended
      obtain ⟨taken, made⟩ := moves
      refine List.mem_cons_of_mem _ ?_
      simp only [taken, made]
      exact ih ended reaches

end Configuration

end Machine

end Peg
