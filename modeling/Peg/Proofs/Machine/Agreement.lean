import Peg.Engine.Eval
import Peg.Proofs.Machine.Realization

/-!
# The machine and the recursive evaluation

The machine keeps suspended expressions in frames where the recursive evaluation calls itself. They
end alike: with the same result, or the same fault, in the same state, and either of them ends
exactly where the other does.

The proof follows the evaluation. For each loop of it (the items of a sequence, the alternatives of
a choice, the rounds of a repetition, the kinds of ignored text) the move with which the machine
goes on realizes the rest of the loop, by induction on what the loop has left.
-/
namespace Peg

/-! ### Scopes that frames hold open -/

namespace Action

variable {α β : Type}

theorem unwinding_none (action : Action α) : unwinding none action = action := by
  funext state
  cases ended : action state <;> simp only [unwinding, ended, State.leaveAny]

theorem unwinding_bind (scope? : Option Scope) (first : Action α) (next : α → Action β) :
    unwinding scope? (first >>= next) =
      unwinding scope? first >>= fun value => unwinding scope? (next value) := by
  funext state
  cases ended : first state <;> simp only [unwinding, bind, Action.bind, ended]

/-- To run an action inside a scope is to open it, and to close it again in any case. -/
theorem withinAny_eq (scope? : Option Scope) (body : Action α) :
    withinAny scope? body =
      Machine.openScope scope? >>= fun _ => unwinding scope? body >>= fun value =>
        Machine.closeScope scope? >>= fun _ => pure value := by
  cases scope? with
  | none =>
    rw [unwinding_none]
    exact (bind_pure body).symm
  | some scope =>
    funext state
    simp only [withinAny, within, Machine.openScope, Machine.closeScope, track, modify, bind,
      Action.bind, unwinding, pure, Action.pure]
    cases body { state with tracker := state.tracker.enter scope } <;> rfl

theorem within_eq (scope : Scope) (body : Action α) :
    within scope body =
      Machine.openScope (some scope) >>= fun _ => unwinding (some scope) body >>= fun value =>
        Machine.closeScope (some scope) >>= fun _ => pure value :=
  withinAny_eq (some scope) body

end Action

namespace Machine

open Eval

variable {env : Env} {level : Nat} {matcher : Matcher}

/-- A part is matched under a frame that holds no scope open. -/
theorem realizes_part {frame : Frame} {expr : Expr} {here : Position} {atomic : Bool}
    {part : Action (Option Match)} {rest : Option Match → Action (Option Match)}
    (free : frame.scope? = none) (inner : Realizes env level (begin env expr here atomic) part)
    (outer : ∀ result, Realizes env level (receive env frame result) (rest result)) :
    Realizes env (level + 1) (pure (.call frame expr here atomic)) (part >>= rest) := by
  have called := realizes_call inner outer
  rwa [free, Action.unwinding_none] at called

theorem realizes_fail (level : Nat) (cause : Fault) :
    Realizes env level (Action.fail cause) (Action.fail cause) where
  done := nofun
  fault broken frames := by
    cases broken
    exact ⟨0, fun fuel => rfl⟩
  exhausted := nofun

/-! ### Loops -/

section Loops

variable (parts : ∀ expr here atomic,
  Realizes env level (begin env expr here atomic) (matcher expr here atomic))

include parts

/-- A sequence that has received an item goes on with the others. -/
theorem realizes_items (start : Position) (atomic : Bool) (rest : List Expr)
    (found : Array (Option Node)) (result : Option Match) :
    Realizes env level (receive env (.seqItem start rest found atomic) result)
      (match result with
        | none => pure none
        | some item => items matcher atomic start rest item.stop (found.push item.node)) := by
  induction rest generalizing found result with
  | nil =>
    cases result with
    | none => exact realizes_answer level none
    | some item => exact realizes_conclude level _
  | cons next rest ih =>
    cases result with
    | none => exact realizes_answer level none
    | some item =>
      -- After the first item, ignored text comes in between unless the sequence is atomic.
      have nonempty : (found.push item.node).isEmpty = false := by simp
      simp only [items, nonempty, Bool.false_or, receive]
      cases atomic with
      | true =>
        exact (realizes_part rfl (parts next item.stop true) (ih _)).mono (Nat.le_succ _)
      | false =>
        simp only [gapUnless, gap, Bool.false_eq_true, if_false, bind_assoc, pure_bind]
        refine (realizes_part rfl (parts .ignored item.stop false) fun gap => ?_).mono
          (Nat.le_succ _)
        exact (realizes_part rfl (parts next _ false) (ih _)).mono (Nat.le_succ _)

theorem realizes_alternatives (start : Position) (atomic : Bool) (index : Nat) (rest : List Expr)
    (result : Option Match) :
    Realizes env level (receive env (.choice start index rest atomic) result)
      (match result with
        | some found => Clause.choice start index found
        | none => alternatives matcher atomic start (index + 1) rest) := by
  induction rest generalizing index result with
  | nil =>
    cases result with
    | none => exact realizes_answer level none
    | some found => exact realizes_conclude level _
  | cons next rest ih =>
    cases result with
    | none =>
      have others := realizes_part rfl (parts next start atomic) (ih (index + 1))
      exact others.mono (Nat.le_succ _)
    | some found => exact realizes_conclude level _

/-- A repetition that has tried its body goes on as long as it may. -/
theorem realizes_repItem {low : Nat} (loop : Repetition) (le : low ≤ level) (fuel : Nat)
    (again : ∀ here found, Realizes env low (continueRep loop here found)
      (repetition env matcher loop.body loop.min loop.max loop.atomic loop.start fuel here found))
    (here : Position) (found : Array (Option Node)) :
    Realizes env (low + 1) (pure (.call (.repItem loop here found) loop.body here loop.atomic))
      (matcher loop.body here loop.atomic >>= fun result =>
        match result with
        | none => Clause.rep loop.min loop.start here found
        | some item =>
          match Clause.beyondLimit env (found.push item.node).size with
          | some limit => Clause.repLimit limit item.stop
          | none => repetition env matcher loop.body loop.min loop.max loop.atomic loop.start fuel
              item.stop (found.push item.node)) := by
  refine realizes_part rfl ((parts loop.body here loop.atomic).mono le) fun result => ?_
  cases result with
  | none => exact realizes_conclude low _
  | some item =>
    simp only [receive]
    cases Clause.beyondLimit env (found.push item.node).size with
    | some limit => exact realizes_conclude low _
    | none => exact again item.stop (found.push item.node)

theorem realizes_continueRep (loop : Repetition) (fuel : Nat) (here : Position)
    (found : Array (Option Node)) :
    Realizes env (min fuel (level + 1)) (continueRep loop here found)
      (repetition env matcher loop.body loop.min loop.max loop.atomic loop.start fuel here
        found) := by
  induction fuel generalizing here found with
  | zero => exact (realizes_exhausted _).mono (Nat.min_le_left _ _)
  | succ fuel ih =>
    -- Each round costs a move, so that the level may grow with the fuel of the loop.
    have item := realizes_repItem parts loop (Nat.min_le_right fuel level) fuel
      fun here found => (ih here found).mono (by omega)
    simp only [continueRep, repetition, gapUnless]
    split
    · exact realizes_conclude _ _
    · split
      · exact (item here found).mono (by omega)
      · simp only [gap, bind_assoc, pure_bind]
        have skipped := (parts .ignored here false).mono (Nat.min_le_right fuel level)
        refine (realizes_part rfl skipped fun gap => ?_).mono (by omega)
        exact (item (Clause.afterGap here gap) found).mono (Nat.le_succ _)

/-- The end of ignored text: the scope in which it was skipped is closed. -/
def endSkip (loop : Action Position) : Action (Option Match) :=
  Action.unwinding (some .muted) loop >>= fun stop =>
    closeScope (some .muted) >>= fun _ => pure (some ⟨stop, none⟩)

omit parts in
theorem endSkip_bind {α : Type} (first : Action α) (next : α → Action Position) :
    endSkip (first >>= next) =
      Action.unwinding (some .muted) first >>= fun value => endSkip (next value) := by
  simp only [endSkip, Action.unwinding_bind, bind_assoc]

/-- One kind of ignored text is skipped as often as it matches, and then comes what follows. -/
theorem realizes_skipOne (skipper : Expr) (rest : List Expr)
    {finish : Position × Bool → Action Position}
    (after : ∀ here progress, Realizes env level (continueSkip env here rest progress)
      (endSkip (finish (here, progress)))) (fuel : Nat) (here : Position) (progress : Bool) :
    Realizes env (min fuel (level + 1))
      (pure (.call (.skip here skipper rest progress) skipper here true))
      (endSkip (skipOne matcher skipper fuel here progress >>= finish)) := by
  induction fuel generalizing here progress with
  | zero => exact (realizes_exhausted _).mono (Nat.min_le_left _ _)
  | succ fuel ih =>
    -- The scope of the skipping stays open from one try to the next.
    have tried := (parts skipper here true).mono (Nat.min_le_right fuel level)
    have onward := fun here progress => (after here progress).mono (Nat.min_le_right fuel level)
    simp only [skipOne, bind_assoc]
    rw [endSkip_bind]
    refine (realizes_call tried fun result => ?_).mono (by omega)
    cases result with
    | none => exact onward here progress
    | some found =>
      simp only [receive]
      split
      · exact onward here progress
      · exact (ih found.stop true).mono (by omega)

theorem realizes_skipEach {fuel : Nat} (le : level ≤ fuel)
    {finish : Position × Bool → Action Position}
    (ending : ∀ here progress, Realizes env level (continueSkip env here [] progress)
      (endSkip (finish (here, progress)))) (skipper : Expr) (rest : List Expr) (here : Position)
    (progress : Bool) :
    Realizes env (min fuel (level + 1)) (continueSkip env here (skipper :: rest) progress)
      (endSkip (skipEach matcher fuel (skipper :: rest) here progress >>= finish)) := by
  induction rest generalizing skipper here progress with
  | nil =>
    simp only [skipEach, bind_assoc, pure_bind]
    exact realizes_skipOne parts skipper [] ending fuel here progress
  | cons next rest ih =>
    rw [skipEach, bind_assoc]
    refine realizes_skipOne parts skipper (next :: rest) ?_ fuel here progress
    intro here progress
    exact (ih next here progress).mono (by omega)

theorem realizes_skipAll {first : Expr} {others : List Expr}
    (skippers : env.skippers = first :: others) (fuel : Nat) (here : Position) :
    Realizes env (min (fuel - 1) (level + 1)) (continueSkip env here (first :: others) false)
      (endSkip (skipAll matcher (first :: others) fuel here)) := by
  induction fuel generalizing here with
  | zero => exact (realizes_exhausted _).mono (Nat.min_le_left _ _)
  | succ fuel ih =>
    -- A round takes at least one move, so that each round of fuel adds one to the level.
    have low : min (fuel - 1) level ≤ fuel := by omega
    have lowParts := fun expr here atomic =>
      (parts expr here atomic).mono (Nat.min_le_right (fuel - 1) level)
    rw [skipAll]
    refine (realizes_skipEach lowParts low (fun here progress => ?_) first others here false).mono
      (by omega)
    cases progress with
    | true =>
      simp only [continueSkip, skippers]
      exact (ih here).mono (by omega)
    | false =>
      simp only [continueSkip, skippers]
      exact realizes_bind _ fun _ => realizes_answer _ _

end Loops

/-- What the machine does with an expression is what the recursive evaluation says. -/
theorem realizes_eval (fuel : Nat) (expr : Expr) (start : Position) (atomic : Bool) :
    Realizes env (fuel - 2) (begin env expr start atomic) (eval env fuel expr start atomic) := by
  induction fuel generalizing expr start atomic with
  | zero => exact realizes_exhausted _
  | succ fuel parts =>
    -- Most expressions suspend themselves in a frame and call their first part.
    have part {frame : Frame} {body : Expr} {here : Position} {atomic : Bool}
        {rest : Option Match → Action (Option Match)} (free : frame.scope? = none)
        (outer : ∀ result, Realizes env (fuel - 2) (receive env frame result) (rest result)) :
        Realizes env (fuel + 1 - 2) (pure (.call frame body here atomic))
          (eval env fuel body here atomic >>= rest) :=
      (realizes_part free (parts body here atomic) outer).mono (by omega)
    -- Lookaheads and rules open the scope of their frame before.
    have partWithin (frame : Frame) {body : Expr} {here : Position} {atomic : Bool}
        {clause : Option Match → Action (Option Match)}
        (outer : ∀ result, Realizes env (fuel - 2) (receive env frame result)
          (closeScope frame.scope? >>= fun _ => clause result)) :
        Realizes env (fuel + 1 - 2)
          (openScope frame.scope? >>= fun _ => pure (.call frame body here atomic))
          (Action.withinAny frame.scope? (eval env fuel body here atomic) >>= clause) := by
      rw [Action.withinAny_eq]
      simp only [bind_assoc, pure_bind]
      exact realizes_bind _ fun _ =>
        (realizes_call (parts body here atomic) outer).mono (by omega)
    cases expr with
    | terminal leaf => exact realizes_conclude _ _
    | seq first rest =>
      exact part rfl (realizes_items parts start atomic rest #[])
    | choice first rest => exact part rfl (realizes_alternatives parts start atomic 0 rest)
    | opt body => exact realizes_bind _ fun _ => part rfl fun _ => realizes_conclude _ _
    | rep body min max =>
      exact (realizes_continueRep parts ⟨body, min, max, atomic, start⟩ fuel start #[]).mono
        (by omega)
    | positive body =>
      refine realizes_bind _ fun _ => ?_
      exact partWithin (.positive body start)
        fun result => realizes_bind _ fun _ => realizes_conclude _ _
    | negative body =>
      refine realizes_bind _ fun _ => ?_
      exact partWithin (.negative body start)
        fun result => realizes_bind _ fun _ => realizes_conclude _ _
    | restorable body => exact realizes_bind _ fun _ => part rfl fun _ => realizes_conclude _ _
    | push body => exact part rfl fun _ => realizes_conclude _ _
    | rule tag name kind body =>
      refine realizes_bind _ fun _ => ?_
      exact partWithin (.rule name kind start)
        fun result => realizes_bind _ fun _ => realizes_conclude _ _
    | ref name =>
      exact realizes_bind _ fun target =>
        (realizes_enter (parts target start atomic)).mono (by omega)
    | lazy cell =>
      exact realizes_bind _ fun target =>
        (realizes_enter (parts target start atomic)).mono (by omega)
    | ignored =>
      simp only [begin, eval, Eval.ignored]
      split
      · exact realizes_answer _ _
      next runs =>
        cases skippers : env.skippers with
        | nil => simp [skippers] at runs
        | cons first others =>
          rw [Action.within_eq]
          simp only [bind_assoc, pure_bind]
          exact realizes_bind _ fun _ =>
            (realizes_skipAll parts skippers fuel start).mono (by omega)
    | pair body =>
      refine part rfl fun first => ?_
      cases first with
      | none => exact realizes_answer _ _
      | some first =>
        refine (realizes_part rfl (parts body first.stop atomic) fun second => ?_).mono
          (Nat.le_succ _)
        cases second with
        | none => exact realizes_answer _ _
        | some second => exact realizes_conclude _ _
    | abstract => exact realizes_fail _ _

/-! ### Agreement -/

/-- Where the recursive evaluation runs out of fuel, the machine is still at work after almost as
many moves. -/
theorem run_exhausted_of_eval {fuel : Nat} {expr : Expr} {start : Position} {atomic : Bool}
    {state : State} (endless : eval env fuel expr start atomic state = .exhausted) :
    Peg.run env (fuel - 2) expr start atomic state = .exhausted := by
  cases level : fuel - 2 with
  | zero => rfl
  | succ moves =>
    exact Halt.settle_eq_exhausted_iff.mpr
      ((realizes_eval fuel expr start atomic).exhausted endless [] moves (by omega))

theorem run_of_eval {fuel : Nat} {expr : Expr} {start : Position} {atomic : Bool} {state : State}
    (ended : eval env fuel expr start atomic state ≠ .exhausted) :
    ∃ moves, Peg.run env moves expr start atomic state = eval env fuel expr start atomic state := by
  have realizes := (realizes_eval fuel expr start atomic : Machine.Realizes env _ _ _)
  cases outcome : eval env fuel expr start atomic state with
  | done result after =>
    obtain ⟨cost, same⟩ := realizes.done outcome []
    exact ⟨cost + 1 + 1, congrArg Halt.settle (same 1)⟩
  | fault cause after =>
    obtain ⟨cost, same⟩ := realizes.fault outcome []
    exact ⟨cost + 0 + 1, same 0⟩
  | exhausted => exact absurd outcome ended

/-- With more moves the machine ends as before. -/
theorem settle_run_more {fuel : Nat} (extra : Nat) {expr : Expr} {start : Position} {atomic : Bool}
    {state : State} (ended : Peg.run env fuel expr start atomic state ≠ .exhausted) :
    Peg.run env (fuel + extra) expr start atomic state =
      Peg.run env fuel expr start atomic state :=
  congrArg Halt.settle (run_more extra fun endless => ended (congrArg Halt.settle endless))

/-- The machine comes to one end, however many moves it is given. -/
theorem run_unique {less more : Nat} {expr : Expr} {start : Position} {atomic : Bool}
    {state : State} (first : Peg.run env less expr start atomic state ≠ .exhausted)
    (second : Peg.run env more expr start atomic state ≠ .exhausted) :
    Peg.run env less expr start atomic state = Peg.run env more expr start atomic state := by
  have later := settle_run_more more first
  have earlier := settle_run_more less second
  rw [Nat.add_comm more less] at earlier
  exact later.symm.trans earlier

theorem eval_of_run {moves : Nat} {expr : Expr} {start : Position} {atomic : Bool} {state : State}
    (ended : Peg.run env moves expr start atomic state ≠ .exhausted) :
    ∃ fuel, eval env fuel expr start atomic state = Peg.run env moves expr start atomic state := by
  -- With two more units of fuel than the machine took moves, the evaluation comes to its end too.
  have finishes : eval env (moves + 2) expr start atomic state ≠ .exhausted := fun endless =>
    ended (run_exhausted_of_eval endless)
  obtain ⟨others, same⟩ := run_of_eval finishes
  refine ⟨moves + 2, same.symm.trans (run_unique ?_ ended)⟩
  rw [same]
  exact finishes

end Machine

/-- With more moves the machine ends as before, where it ended at all. -/
theorem run_approximates (env : Env) (expr : Expr) {less more : Nat} (le : less ≤ more)
    (start : Position) (atomic : Bool) :
    (run env less expr start atomic).Approximates (run env more expr start atomic) := by
  intro state
  by_cases endless : run env less expr start atomic state = .exhausted
  · exact .inl endless
  · obtain ⟨extra, rfl⟩ := Nat.exists_eq_add_of_le le
    exact .inr (Machine.settle_run_more extra endless)

/-- Matching an expression comes to its end, with a result and in a state. -/
def Finishes (env : Env) (expr : Expr) (start : Position) (atomic : Bool) (before : State)
    (result : Option Match) (after : State) : Prop :=
  ∃ moves, run env moves expr start atomic before = .done result after

section Finishes

variable {env : Env} {expr : Expr} {start : Position} {atomic : Bool} {before after : State}
  {result : Option Match}

/-- What the machine finishes, the recursive evaluation finishes, and the other way round. -/
theorem finishes_iff_eval :
    Finishes env expr start atomic before result after ↔
      ∃ fuel, eval env fuel expr start atomic before = .done result after := by
  constructor
  · rintro ⟨moves, ran⟩
    have ended : run env moves expr start atomic before ≠ .exhausted := fun endless =>
      nomatch ran.symm.trans endless
    obtain ⟨fuel, same⟩ := Machine.eval_of_run ended
    exact ⟨fuel, same.trans ran⟩
  · rintro ⟨fuel, evaluated⟩
    have ended : eval env fuel expr start atomic before ≠ .exhausted := fun endless =>
      nomatch evaluated.symm.trans endless
    obtain ⟨moves, same⟩ := Machine.run_of_eval ended
    exact ⟨moves, same.trans evaluated⟩

/-- What is finished took some fuel, so that the expression can be taken apart. -/
theorem Finishes.exists_eval (finishes : Finishes env expr start atomic before result after) :
    ∃ fuel, eval env (fuel + 1) expr start atomic before = .done result after := by
  obtain ⟨fuel, ended⟩ := finishes_iff_eval.mp finishes
  cases fuel with
  | zero => cases ended
  | succ fuel => exact ⟨fuel, ended⟩

/-- Matching a terminal comes to the end of an attempt at it. -/
theorem Finishes.of_attempt {leaf : Terminal}
    (attempted : leaf.attempt start before = .done result after) :
    Finishes env (.terminal leaf) start atomic before result after :=
  finishes_iff_eval.mpr ⟨1, attempted⟩

/-- Matching comes to one end. -/
theorem Finishes.unique {other : Option Match} {also : State}
    (finishes : Finishes env expr start atomic before result after)
    (again : Finishes env expr start atomic before other also) : result = other ∧ after = also := by
  obtain ⟨less, first⟩ := finishes
  obtain ⟨more, second⟩ := again
  have same := Machine.run_unique (fun endless => nomatch first.symm.trans endless)
    (fun endless => nomatch second.symm.trans endless)
  rw [first, second] at same
  cases same
  exact ⟨rfl, rfl⟩

end Finishes

/-- The machine comes to an end exactly where the recursive evaluation does, and then both give the
same result, or are broken off by the same fault, and leave the same stack, tracker and trace. -/
theorem run_agrees_with_eval (env : Env) (expr : Expr) (start : Position) (atomic : Bool)
    (state : State) :
    ((∃ moves, run env moves expr start atomic state ≠ .exhausted) ↔
        ∃ fuel, eval env fuel expr start atomic state ≠ .exhausted) ∧
      ∀ moves fuel, run env moves expr start atomic state ≠ .exhausted →
        eval env fuel expr start atomic state ≠ .exhausted →
        run env moves expr start atomic state = eval env fuel expr start atomic state := by
  refine ⟨⟨?_, ?_⟩, ?_⟩
  · rintro ⟨moves, ended⟩
    obtain ⟨fuel, same⟩ := Machine.eval_of_run ended
    exact ⟨fuel, same ▸ ended⟩
  · rintro ⟨fuel, ended⟩
    obtain ⟨moves, same⟩ := Machine.run_of_eval ended
    exact ⟨moves, same ▸ ended⟩
  · intro moves fuel ran evaluated
    obtain ⟨others, same⟩ := Machine.run_of_eval evaluated
    rw [← same]
    exact Machine.run_unique ran (same ▸ evaluated)

/-- A letter twice in a row is matched by either in the same way. -/
theorem pair_of_letters_agrees :
    ∃ found after,
      run { input := ⟨0, #['a', 'a']⟩ } 10 (.pair (.literal "a")) (.start ⟨0, #['a', 'a']⟩) true
          {} = .done (some found) after ∧
        eval { input := ⟨0, #['a', 'a']⟩ } 3 (.pair (.literal "a")) (.start ⟨0, #['a', 'a']⟩) true
          {} = .done (some found) after := by
  have agree := (run_agrees_with_eval { input := ⟨0, #['a', 'a']⟩ } (.pair (.literal "a"))
    (.start ⟨0, #['a', 'a']⟩) true {}).2 10 3 nofun nofun
  exact ⟨_, _, rfl, agree.symm⟩

end Peg
