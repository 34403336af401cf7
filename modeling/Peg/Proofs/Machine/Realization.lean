import Peg.Engine.Machine
import Peg.Proofs.Action.Laws

/-!
# What a move of the machine stands for

A move stands for an action if the machine, going on from the move, comes to the result of the
action with the frames below untouched, or is halted by its fault and leaves the state of the action
with those frames given up. It also takes its time: an action that runs out of fuel at some level is
one that the machine does not finish in so many moves. So the machine and the action end alike, and
neither ends where the other does not.

Actions that are put together from parts are realized by moves that suspend an expression, match the
part, and go on in the frame. The lemmas here say so once for any frame.
-/
namespace Peg

/-- The state after a scope is closed, if one is given. -/
def State.leaveAny (state : State) : Option Scope → State
  | some scope => { state with tracker := state.tracker.leave scope }
  | none => state

/-- An action inside a scope that is open already: only a fault closes it. -/
def Action.unwinding {α : Type} (scope? : Option Scope) (action : Action α) : Action α :=
  fun state => match action state with
    | .done value after => .done value after
    | .fault cause after => .fault cause (after.leaveAny scope?)
    | .exhausted => .exhausted

section Unwinding

variable {α : Type} {scope? : Option Scope} {action : Action α} {state after : State}

theorem Action.unwinding_of_done {value : α} (ended : action state = .done value after) :
    Action.unwinding scope? action state = .done value after := by
  simp only [Action.unwinding, ended]

theorem Action.unwinding_of_fault {cause : Fault} (broken : action state = .fault cause after) :
    Action.unwinding scope? action state = .fault cause (after.leaveAny scope?) := by
  simp only [Action.unwinding, broken]

theorem Action.unwinding_of_exhausted (endless : action state = .exhausted) :
    Action.unwinding scope? action state = .exhausted := by
  simp only [Action.unwinding, endless]

end Unwinding

/-! ### Halts -/

namespace Halt

variable {halt : Halt} {after : State}

theorem settle_eq_done_iff {result : Option Match} :
    halt.settle = .done result after ↔ halt = .answered result after := by
  cases halt <;> simp [settle]

theorem settle_eq_exhausted_iff : halt.settle = .exhausted ↔ halt = .exhausted := by
  cases halt <;> simp [settle]

end Halt

namespace Machine

variable {env : Env}

/-- Takes a step and goes on with the move that it answers. -/
def proceed (env : Env) (fuel : Nat) (step : Action Move) (frames : List Frame) (state : State) :
    Halt :=
  match step state with
  | .done move state => run env fuel move frames state
  | .fault cause state => .raised cause frames state
  | .exhausted => .exhausted

theorem unwind_cons (frame : Frame) (frames : List Frame) (state : State) :
    unwind (frame :: frames) state = unwind frames (state.leaveAny frame.scope?) := by
  cases held : frame.scope? <;> simp only [unwind, List.foldl_cons, held, State.leaveAny]

/-! ### Fuel of the machine -/

/-- A machine that has come to a halt does so with more fuel. -/
theorem run_more {fuel : Nat} (extra : Nat) {move : Move} {frames : List Frame} {state : State}
    (ended : run env fuel move frames state ≠ .exhausted) :
    run env (fuel + extra) move frames state = run env fuel move frames state := by
  induction fuel generalizing move frames state with
  | zero => exact absurd rfl ended
  | succ fuel ih =>
    rw [Nat.add_right_comm]
    -- Every move but the last takes a step and goes on with what the step answers.
    have onward (step : Action Move) (frames : List Frame)
        (ended : proceed env fuel step frames state ≠ .exhausted) :
        proceed env (fuel + extra) step frames state = proceed env fuel step frames state := by
      unfold proceed at ended ⊢
      cases stepped : step state with
      | done next after =>
        rw [stepped] at ended
        exact ih ended
      | fault cause after => rfl
      | exhausted => rfl
    cases move with
    | answer result =>
      cases frames with
      | nil => rfl
      | cons frame frames => exact onward _ frames ended
    | enter expr here atomic => exact onward _ frames ended
    | call frame expr here atomic => exact onward _ (frame :: frames) ended

theorem run_exhausted_of_le {less more : Nat} (le : less ≤ more) {move : Move}
    {frames : List Frame} {state : State} (endless : run env more move frames state = .exhausted) :
    run env less move frames state = .exhausted := by
  by_cases ended : run env less move frames state = .exhausted
  · exact ended
  · -- An end within fewer moves would still be one within more.
    have same := run_more (more - less) ended
    rw [Nat.add_sub_cancel' le, endless] at same
    exact same.symm

theorem proceed_exhausted_of_le {less more : Nat} (le : less ≤ more) {step : Action Move}
    {frames : List Frame} {state : State}
    (endless : proceed env more step frames state = .exhausted) :
    proceed env less step frames state = .exhausted := by
  unfold proceed at endless ⊢
  cases stepped : step state with
  | done next after =>
    rw [stepped] at endless
    exact run_exhausted_of_le le endless
  | fault cause after =>
    rw [stepped] at endless
    cases endless
  | exhausted => rfl

/-! ### Realization -/

/-- A step of the machine does what an action does. -/
structure Realizes (env : Env) (level : Nat) (step : Action Move)
    (meaning : Action (Option Match)) : Prop where
  done : ∀ {state result after}, meaning state = .done result after → ∀ frames, ∃ cost, ∀ fuel,
    proceed env (cost + fuel) step frames state = run env fuel (.answer result) frames after
  fault : ∀ {state cause after}, meaning state = .fault cause after → ∀ frames, ∃ cost, ∀ fuel,
    (proceed env (cost + fuel) step frames state).settle = .fault cause (unwind frames after)
  exhausted : ∀ {state}, meaning state = .exhausted → ∀ frames fuel, fuel < level →
    proceed env fuel step frames state = .exhausted

theorem Realizes.mono {low high : Nat} {step : Action Move} {meaning : Action (Option Match)}
    (realizes : Realizes env high step meaning) (le : low ≤ high) :
    Realizes env low step meaning :=
  ⟨realizes.done, realizes.fault, fun endless frames fuel below =>
    realizes.exhausted endless frames fuel (Nat.lt_of_lt_of_le below le)⟩

theorem realizes_exhausted (step : Action Move) : Realizes env 0 step Action.exhausted :=
  ⟨nofun, nofun, fun _ _ _ below => absurd below (Nat.not_lt_zero _)⟩

theorem realizes_conclude (level : Nat) (clause : Action (Option Match)) :
    Realizes env level (conclude clause) clause where
  done ended frames := ⟨0, fun fuel => by
    simp only [proceed, conclude, Action.bind_of_done ended, pure, Action.pure, Nat.zero_add]⟩
  fault broken frames := ⟨0, fun fuel => by
    simp only [proceed, conclude, Action.bind_of_fault broken, Halt.settle]⟩
  exhausted endless frames fuel _ := by
    simp only [proceed, conclude, Action.bind_of_exhausted endless]

theorem realizes_answer (level : Nat) (result : Option Match) :
    Realizes env level (pure (.answer result)) (pure result) :=
  realizes_conclude level (pure result)

theorem proceed_bind_of_done {α : Type} {first : Action α} {next : α → Action Move} {value : α}
    {state middle : State} (ended : first state = .done value middle) (fuel : Nat)
    (frames : List Frame) :
    proceed env fuel (first >>= next) frames state =
      proceed env fuel (next value) frames middle := by
  simp only [proceed, Action.bind_of_done ended]

/-- What comes before the first move is the same for both. -/
theorem realizes_bind {α : Type} {level : Nat} (first : Action α) {step : α → Action Move}
    {meaning : α → Action (Option Match)}
    (rest : ∀ value, Realizes env level (step value) (meaning value)) :
    Realizes env level (first >>= step) (first >>= meaning) where
  done {state result after} ended frames := by
    obtain ⟨value, middle, began, ended⟩ := Action.bind_eq_done ended
    obtain ⟨cost, same⟩ := (rest value).done ended frames
    exact ⟨cost, fun fuel => (proceed_bind_of_done began _ _).trans (same fuel)⟩
  fault {state cause after} broken frames := by
    cases began : first state with
    | done value middle =>
      rw [Action.bind_of_done began] at broken
      obtain ⟨cost, same⟩ := (rest value).fault broken frames
      exact ⟨cost, fun fuel => by rw [proceed_bind_of_done began]; exact same fuel⟩
    | fault early middle =>
      rw [Action.bind_of_fault began] at broken
      cases broken
      exact ⟨0, fun fuel => by simp only [proceed, Action.bind_of_fault began, Halt.settle]⟩
    | exhausted =>
      rw [Action.bind_of_exhausted began] at broken
      cases broken
  exhausted {state} endless frames fuel below := by
    cases began : first state with
    | done value middle =>
      rw [Action.bind_of_done began] at endless
      rw [proceed_bind_of_done began]
      exact (rest value).exhausted endless frames fuel below
    | fault early middle =>
      rw [Action.bind_of_fault began] at endless
      cases endless
    | exhausted => simp only [proceed, Action.bind_of_exhausted began]

/-- Matching another expression in place of the present one takes one more move. -/
theorem realizes_enter {level : Nat} {expr : Expr} {here : Position} {atomic : Bool}
    {meaning : Action (Option Match)}
    (part : Realizes env level (begin env expr here atomic) meaning) :
    Realizes env (level + 1) (pure (.enter expr here atomic)) meaning where
  done ended frames := by
    obtain ⟨cost, same⟩ := part.done ended frames
    exact ⟨cost + 1, fun fuel => by rw [Nat.add_right_comm]; exact same fuel⟩
  fault broken frames := by
    obtain ⟨cost, same⟩ := part.fault broken frames
    exact ⟨cost + 1, fun fuel => by rw [Nat.add_right_comm]; exact same fuel⟩
  exhausted endless frames fuel below := by
    cases fuel with
    | zero => rfl
    | succ fuel => exact part.exhausted endless frames fuel (Nat.lt_of_succ_lt_succ below)

/-- A frame is put on the others, the part is matched on top of it, and the frame goes on with the
result. -/
theorem realizes_call {level : Nat} {frame : Frame} {expr : Expr} {here : Position} {atomic : Bool}
    {part : Action (Option Match)} {rest : Option Match → Action (Option Match)}
    (inner : Realizes env level (begin env expr here atomic) part)
    (outer : ∀ result, Realizes env level (receive env frame result) (rest result)) :
    Realizes env (level + 1) (pure (.call frame expr here atomic))
      (Action.unwinding frame.scope? part >>= rest) := by
  have started (fuel : Nat) (frames : List Frame) (state : State) :
      proceed env (fuel + 1) (pure (.call frame expr here atomic)) frames state =
        proceed env fuel (begin env expr here atomic) (frame :: frames) state := rfl
  -- After the part has ended, the machine comes to the frame with its result.
  have resumed {state middle : State} {result : Option Match}
      (ended : part state = .done result middle) (frames : List Frame) :
      ∃ cost, ∀ fuel, proceed env (cost + (fuel + 1)) (begin env expr here atomic)
        (frame :: frames) state = proceed env fuel (receive env frame result) frames middle := by
    obtain ⟨cost, same⟩ := inner.done ended (frame :: frames)
    exact ⟨cost, fun fuel => same (fuel + 1)⟩
  refine ⟨fun {state result after} ended frames => ?_, fun {state cause after} broken frames => ?_,
    fun {state} endless frames fuel below => ?_⟩
  · -- The part has ended, since otherwise nothing would have come after it.
    cases matched : part state with
    | done found reached =>
      rw [Action.bind_of_done (Action.unwinding_of_done matched)] at ended
      obtain ⟨first, sameFirst⟩ := resumed matched frames
      obtain ⟨second, sameSecond⟩ := (outer found).done ended frames
      refine ⟨first + second + 2, fun fuel => ?_⟩
      have cost : first + second + 2 + fuel = first + (second + fuel + 1) + 1 := by omega
      rw [cost, started, sameFirst, sameSecond]
    | fault early reached =>
      rw [Action.bind_of_fault (Action.unwinding_of_fault matched)] at ended
      cases ended
    | exhausted =>
      rw [Action.bind_of_exhausted (Action.unwinding_of_exhausted matched)] at ended
      cases ended
  · -- The fault is that of the part, which passes the frame, or comes of what the frame does.
    cases matched : part state with
    | done found reached =>
      rw [Action.bind_of_done (Action.unwinding_of_done matched)] at broken
      obtain ⟨first, sameFirst⟩ := resumed matched frames
      obtain ⟨second, sameSecond⟩ := (outer found).fault broken frames
      refine ⟨first + second + 2, fun fuel => ?_⟩
      have cost : first + second + 2 + fuel = first + (second + fuel + 1) + 1 := by omega
      rw [cost, started, sameFirst, sameSecond]
    | fault early reached =>
      rw [Action.bind_of_fault (Action.unwinding_of_fault matched)] at broken
      cases broken
      -- Unwinding closes the scope of this frame first, as the unwinding action does.
      obtain ⟨cost, same⟩ := inner.fault matched (frame :: frames)
      refine ⟨cost + 1, fun fuel => ?_⟩
      rw [Nat.add_right_comm, started, same, unwind_cons]
    | exhausted =>
      rw [Action.bind_of_exhausted (Action.unwinding_of_exhausted matched)] at broken
      cases broken
  · cases fuel with
    | zero => rfl
    | succ fuel =>
      have below : fuel < level := Nat.lt_of_succ_lt_succ below
      rw [started]
      cases matched : part state with
      | done found reached =>
        rw [Action.bind_of_done (Action.unwinding_of_done matched)] at endless
        -- The frame alone keeps the machine busy for so many moves, the part comes on top of them.
        obtain ⟨cost, same⟩ := resumed matched frames
        have later := (same fuel).trans ((outer found).exhausted endless frames fuel below)
        exact proceed_exhausted_of_le (by omega) later
      | fault early reached =>
        rw [Action.bind_of_fault (Action.unwinding_of_fault matched)] at endless
        cases endless
      | exhausted => exact inner.exhausted matched (frame :: frames) fuel below

end Machine

end Peg
