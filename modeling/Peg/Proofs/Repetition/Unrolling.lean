import Peg.Proofs.Equivalence.Completeness
import Peg.Proofs.Eval.Fuel
import Peg.Proofs.Machine.Endings

/-!
# Repetitions as sequences

Without a limit, a repetition that needs at least one match and may have two is a sequence: one
match, and then a repetition that needs and allows one match less. Ignored text is skipped in front
of the second match by the repetition in the one case and by the sequence in the other, and stays
skipped in both if that match fails. A repetition that may have one match only skips nothing after
it, and there the two differ.

The proof goes through the rounds of both repetitions side by side. They have found different
numbers of matches, but lack and may have as many more.

## Main result

The two come to the same ends, and so do a repetition of a fixed number of matches and a sequence of
so many copies.
-/
namespace Peg

open Peg.Action (Approximates)

/-- The outcome without the nodes: where a match ends, if there is one, and the state. -/
def Outcome.withoutNodes : Outcome (Option Match) → Outcome (Option Position)
  | .done result after => .done (result.map Match.stop) after
  | .fault cause after => .fault cause after
  | .exhausted => .exhausted

/-- Matching the two expressions comes to an end for both or for neither. Then both match up to the
same place, or both fail, or both are broken off by the same fault; and the stack, the tracker and
all else of the state are the same. -/
def SameEnds (env : Env) (left right : Expr) (start : Position) (atomic : Bool) (before : State) :
    Prop :=
  ∀ outcome, outcome ≠ .exhausted →
    ((∃ moves, (run env moves left start atomic before).withoutNodes = outcome) ↔
      ∃ moves, (run env moves right start atomic before).withoutNodes = outcome)

theorem Outcome.withoutNodes_eq_exhausted {outcome : Outcome (Option Match)} :
    outcome.withoutNodes = .exhausted ↔ outcome = .exhausted := by
  cases outcome with
  | done | fault => exact ⟨nofun, nofun⟩
  | exhausted => exact ⟨fun _ => rfl, fun _ => rfl⟩

/-! ### Actions that differ in nodes -/

namespace Action

/-- Where the one action ends, the other ends alike but for the nodes. -/
def Mimics (less more : Action (Option Match)) : Prop :=
  ∀ state, less state = .exhausted ∨ (more state).withoutNodes = (less state).withoutNodes

namespace Mimics

variable {α : Type} {less more : Action (Option Match)}

theorem refl (action : Action (Option Match)) : Mimics action action := fun _ => .inr rfl

theorem exhausted : Mimics Action.exhausted more := fun _ => .inl rfl

/-- After first parts that end alike, only what can come of them matters. -/
theorem bind {first other : Action α} {next later : α → Action (Option Match)}
    (early : Approximates first other)
    (late : ∀ value before after, first before = .done value after →
      Mimics (next value) (later value)) :
    Mimics (first >>= next) (other >>= later) := by
  intro state
  rcases early state with endless | same
  · exact .inl (bind_of_exhausted endless)
  · cases began : first state with
    | done value middle =>
      rw [bind_of_done began, bind_of_done (same.trans began)]
      exact late value state middle began middle
    | fault cause after =>
      rw [bind_of_fault began, bind_of_fault (same.trans began)]
      exact .inr rfl
    | exhausted => exact .inl (bind_of_exhausted began)

theorem congr_left {other : Action (Option Match)}
    (same : ∀ state, (other state).withoutNodes = (less state).withoutNodes)
    (mimics : Mimics less more) : Mimics other more := by
  intro state
  rw [← Outcome.withoutNodes_eq_exhausted, same, Outcome.withoutNodes_eq_exhausted]
  exact mimics state

theorem congr_right {other : Action (Option Match)}
    (same : ∀ state, (other state).withoutNodes = (more state).withoutNodes)
    (mimics : Mimics less more) : Mimics less other := by
  intro state
  rw [same]
  exact mimics state

/-- Two matches that end at the same place. -/
theorem answer {start other stop : Position} (ordered : start.Precedes stop)
    (also : other.Precedes stop) (node onward : Span → Option Node) :
    Mimics (Action.span start stop >>= fun span => Pure.pure (some ⟨stop, node span⟩))
      (Action.span other stop >>= fun span => Pure.pure (some ⟨stop, onward span⟩)) := by
  obtain ⟨span, made, _⟩ := Span.spanTo_eq_ok ordered
  obtain ⟨wide, makes, _⟩ := Span.spanTo_eq_ok also
  rw [Action.span, Action.span, made, makes]
  exact fun _ => .inr rfl

end Mimics

/-- What is put around a match afterwards only concerns its node. -/
theorem withoutNodes_bind {action : Action (Option Match)}
    {wrap : Option Match → Action (Option Match)}
    (keeps : ∀ result before after, action before = .done result after →
      (wrap result after).withoutNodes = .done (result.map Match.stop) after) (state : State) :
    ((action >>= wrap) state).withoutNodes = (action state).withoutNodes := by
  cases ended : action state with
  | done result after =>
    rw [bind_of_done ended]
    exact keeps result state after ended
  | fault cause after => rw [bind_of_fault ended]
  | exhausted => rw [bind_of_exhausted ended]

end Action

open Peg.Action (Mimics)

/-! ### Rounds side by side -/

namespace Eval

/-- A round of a repetition after ignored text: the body is tried, and more rounds may follow. -/
def turn (env : Env) (run : Matcher) (body : Expr) (min : Nat) (max : Option Nat) (atomic : Bool)
    (start : Position) (rounds : Nat) (found : Array (Option Node)) (here : Position) :
    Action (Option Match) := do
  match ← run body here atomic with
  | none => Clause.rep min start here found
  | some item =>
    let found := found.push item.node
    match Clause.beyondLimit env found.size with
    | some limit => Clause.repLimit limit item.stop
    | none => repetition env run body min max atomic start rounds item.stop found

theorem repetition_of_full {env : Env} {run : Matcher} {body : Expr} {min : Nat}
    {max : Option Nat} {atomic : Bool} {start here : Position} {found : Array (Option Node)}
    (full : max.any (· ≤ found.size) = true) (rounds : Nat) :
    repetition env run body min max atomic start (rounds + 1) here found =
      Clause.rep min start here found := by
  rw [repetition, if_pos full]

theorem repetition_of_room {env : Env} {run : Matcher} {body : Expr} {min : Nat}
    {max : Option Nat} {atomic : Bool} {start here : Position} {found : Array (Option Node)}
    (room : max.any (· ≤ found.size) = false) (rounds : Nat) :
    repetition env run body min max atomic start (rounds + 1) here found =
      gapUnless run (found.isEmpty || atomic) here >>=
        turn env run body min max atomic start rounds found := by
  rw [repetition, if_neg (Bool.eq_false_iff.mp room)]
  rfl

end Eval

theorem any_eq_false_of_lt {max : Option Nat} {count : Nat}
    (room : ∀ bound, max = some bound → count < bound) : max.any (· ≤ count) = false := by
  cases max with
  | none => rfl
  | some bound => simpa using room bound rfl

theorem Clause.beyondLimit_eq_none {env : Env} {count : Nat}
    (within : ∀ limit, env.repeatLimit = some limit → count ≤ limit) :
    Clause.beyondLimit env count = none := by
  unfold Clause.beyondLimit
  cases limited : env.repeatLimit with
  | none => rfl
  | some limit => exact Option.filter_some_neg (by simpa using within limit limited)

theorem Clause.beyondLimit_of_unlimited {env : Env} (unlimited : env.repeatLimit = none)
    (count : Nat) : Clause.beyondLimit env count = none :=
  Clause.beyondLimit_eq_none fun _ limited => nomatch unlimited.symm.trans limited

/-- Of two repetitions with so many matches, both lack as many matches and may have as many. -/
structure InStep (min : Nat) (max : Option Nat) (count : Nat) (other : Nat) (most : Option Nat)
    (size : Nat) : Prop where
  short_iff : ∀ more, count + more < min ↔ size + more < other
  full_eq : ∀ more, max.any (· ≤ count + more) = most.any (· ≤ size + more)

namespace InStep

variable {min other count size : Nat} {max most : Option Nat}

theorem symm (step : InStep min max count other most size) :
    InStep other most size min max count :=
  ⟨fun more => (step.short_iff more).symm, fun more => (step.full_eq more).symm⟩

theorem next (step : InStep min max count other most size) :
    InStep min max (count + 1) other most (size + 1) := by
  refine ⟨fun more => ?_, fun more => ?_⟩
  · have later := step.short_iff (1 + more)
    rwa [← Nat.add_assoc, ← Nat.add_assoc] at later
  · have later := step.full_eq (1 + more)
    rwa [← Nat.add_assoc, ← Nat.add_assoc] at later

/-- A repetition after its first match, and one that needs and allows one match less. -/
theorem first (needed : 1 ≤ min) (room : ∀ bound, max = some bound → 2 ≤ bound) :
    InStep min max 1 (min - 1) (max.map (· - 1)) 0 := by
  refine ⟨fun more => by omega, fun more => ?_⟩
  cases max with
  | none => rfl
  | some bound =>
    have := room bound rfl
    simp only [Option.map_some, Option.any_some, decide_eq_decide]
    omega

end InStep

section Unlimited

variable {env : Env} (unlimited : env.repeatLimit = none) {body : Expr} {atomic : Bool}

include unlimited

/-- Repetitions that are in step go through the same rounds. -/
theorem turn_mimics {less more rounds others : Nat} (le : less ≤ more) (enough : rounds ≤ others)
    {min other : Nat} {max most : Option Nat} {start begin here : Position}
    {found nodes : Array (Option Node)} (step : InStep min max found.size other most nodes.size)
    (ordered : start.Precedes here) (also : begin.Precedes here) :
    Mimics (Eval.turn env (eval env less) body min max atomic start rounds found here)
      (Eval.turn env (eval env more) body other most atomic begin others nodes here) := by
  have allowed := Clause.beyondLimit_of_unlimited unlimited
  -- The repetitions end together, and both succeed or both have too few matches.
  have closes {min other : Nat} {max most : Option Nat} {here : Position}
      {found nodes : Array (Option Node)} (step : InStep min max found.size other most nodes.size)
      (ordered : start.Precedes here) (also : begin.Precedes here) :
      Mimics (Clause.rep min start here found) (Clause.rep other begin here nodes) := by
    have short := step.short_iff 0
    rw [Nat.add_zero, Nat.add_zero] at short
    unfold Clause.rep
    by_cases missing : found.size < min
    · rw [if_pos missing, if_pos (short.mp missing)]
      exact .refl _
    · rw [if_neg missing, if_neg (mt short.mpr missing)]
      exact .answer ordered also _ _
  induction rounds generalizing others here found nodes with
  | zero =>
    refine .bind (Eval.eval_approximates env le body here atomic) fun result before after _ => ?_
    cases result with
    | none => exact closes step ordered also
    | some item =>
      dsimp only
      rw [allowed]
      exact .exhausted
  | succ rounds ih =>
    obtain ⟨others, rfl⟩ := Nat.exists_eq_add_of_lt enough
    refine .bind (Eval.eval_approximates env le body here atomic)
      fun result before after ended => ?_
    cases result with
    | none => exact closes step ordered also
    | some item =>
      have late := precedes_of_eval env less body here atomic ended
      have next : InStep min max (found.push item.node).size other most
          (nodes.push item.node).size := by
        rw [Array.size_push, Array.size_push]
        exact step.next
      have begun (found : Array (Option Node)) : (found.push item.node).isEmpty = false := by simp
      have same := next.full_eq 0
      rw [Nat.add_zero, Nat.add_zero] at same
      dsimp only
      rw [allowed, allowed]
      dsimp only
      cases full : max.any (· ≤ (found.push item.node).size) with
      | true =>
        rw [Eval.repetition_of_full full, Eval.repetition_of_full (same ▸ full)]
        exact closes next (ordered.trans late) (also.trans late)
      | false =>
        rw [Eval.repetition_of_room full, Eval.repetition_of_room (same ▸ full), begun, begun]
        refine .bind (Eval.gapUnless_approximates (Eval.eval_approximates env le) _ item.stop)
          fun there before after skipped => ?_
        have onward := late.trans (precedes_of_gap skipped)
        exact ih (by omega) next (ordered.trans onward) (also.trans onward)

end Unlimited

/-! ### First rounds -/

section First

variable {env : Env} {body : Expr} {atomic : Bool}

theorem eval_rep_of_room {max : Option Nat} (room : max.any (· ≤ 0) = false) (fuel min : Nat)
    (start : Position) : eval env (fuel + 2) (.rep body min max) start atomic =
      Eval.turn env (eval env (fuel + 1)) body min max atomic start fuel #[] start :=
  @Eval.repetition_of_room env (eval env (fuel + 1)) body min max atomic start start #[] room fuel

/-- The body of a repetition that may have two matches, and another round if it matches. -/
theorem turn_of_room (unlimited : env.repeatLimit = none) {max : Option Nat}
    (room : max.any (· ≤ 1) = false) (run : Eval.Matcher) (min rounds : Nat) (start : Position) :
    Eval.turn env run body min max atomic start (rounds + 1) #[] start =
      run body start atomic >>= fun result =>
        match result with
        | none => Clause.rep min start start #[]
        | some item => Eval.gapUnless run atomic item.stop >>=
            Eval.turn env run body min max atomic start rounds #[item.node] := by
  refine bind_congr fun result => ?_
  cases result with
  | none => rfl
  | some item =>
    have onward :=
      @Eval.repetition_of_room env run body min max atomic start item.stop #[item.node] room rounds
    change (match Clause.beyondLimit env 1 with
      | some limit => Clause.repLimit limit item.stop
      | none => Eval.repetition env run body min max atomic start (rounds + 1) item.stop
          #[item.node]) = _
    rw [Clause.beyondLimit_of_unlimited unlimited]
    exact onward

/-- A sequence of two, but for its node: the body, and if that matches the other item. -/
theorem seq_pair_withoutNodes (fuel : Nat) (second : Expr) (start : Position) (before : State) :
    (eval env (fuel + 1) (.seq body [second]) start atomic before).withoutNodes =
      ((eval env fuel body start atomic >>= fun result =>
        match result with
        | none => pure none
        | some item => Eval.gapUnless (eval env fuel) atomic item.stop >>= fun here =>
            eval env fuel second here atomic) before).withoutNodes := by
  change ((eval env fuel body start atomic >>= fun result => match result with
    | none => pure none
    | some item => Eval.items (eval env fuel) atomic start [second] item.stop #[item.node])
      before).withoutNodes = _
  cases ended : eval env fuel body start atomic before with
  | fault cause after => rw [Action.bind_of_fault ended, Action.bind_of_fault ended]
  | exhausted => rw [Action.bind_of_exhausted ended, Action.bind_of_exhausted ended]
  | done result middle =>
    rw [Action.bind_of_done ended, Action.bind_of_done ended]
    cases result with
    | none => rfl
    | some item =>
      have early := precedes_of_eval env fuel body start atomic ended
      -- The sequence puts a node around what the second item comes to.
      change ((Eval.gapUnless (eval env fuel) atomic item.stop >>= fun here =>
        eval env fuel second here atomic >>= fun result => match result with
          | none => pure none
          | some last =>
            Clause.seq start last.stop #[item.node, last.node]) middle).withoutNodes = _
      rw [← bind_assoc]
      refine Action.withoutNodes_bind (fun result before after ended => ?_) middle
      cases result with
      | none => rfl
      | some last =>
        obtain ⟨there, between, skipped, matched⟩ := Action.bind_eq_done ended
        have late := (precedes_of_gap skipped).trans
          (precedes_of_eval env fuel second there atomic matched)
        obtain ⟨span, made, _⟩ := Span.spanTo_eq_ok (early.trans late)
        simp only [Clause.seq, Action.span, made, Action.ofExcept, pure_bind]
        rfl

end First

/-! ### One match and the others -/

section Halves

variable {env : Env} (unlimited : env.repeatLimit = none) {body : Expr} {atomic : Bool}
  {min : Nat} (needed : 1 ≤ min) {max : Option Nat}
  (room : ∀ bound, max = some bound → 2 ≤ bound)

include room in
theorem room_of_small {count : Nat} (small : count < 2) : max.any (· ≤ count) = false :=
  any_eq_false_of_lt fun bound bounded => Nat.lt_of_lt_of_le small (room bound bounded)

include room in
theorem room_of_less : (max.map (· - 1)).any (· ≤ 0) = false := by
  refine any_eq_false_of_lt fun less lowered => ?_
  obtain ⟨bound, bounded, rfl⟩ := Option.map_eq_some_iff.mp lowered
  exact Nat.sub_pos_of_lt (room bound bounded)

include unlimited needed room

theorem rep_mimics_seq (fuel : Nat) (start : Position) :
    Mimics (eval env (fuel + 3) (.rep body min max) start atomic)
      (eval env (fuel + 5) (.seq body [.rep body (min - 1) (max.map (· - 1))]) start atomic) := by
  rw [eval_rep_of_room (room_of_small room Nat.zero_lt_two),
    turn_of_room unlimited (room_of_small room Nat.one_lt_two)]
  refine Mimics.congr_right (fun state => seq_pair_withoutNodes (fuel + 4) _ start state) ?_
  have approximates : (eval env (fuel + 2)).Approximates (eval env (fuel + 4)) :=
    Eval.eval_approximates env (by omega)
  refine .bind (approximates body start atomic) fun result before after ended => ?_
  cases result with
  | none =>
    rw [Clause.rep, if_pos (show (#[] : Array (Option Node)).size < min from needed)]
    exact .refl _
  | some item =>
    have early := precedes_of_eval env _ body start atomic ended
    refine .bind (Eval.gapUnless_approximates approximates atomic item.stop)
      fun there before after skipped => ?_
    rw [eval_rep_of_room (room_of_less room)]
    exact turn_mimics unlimited (by omega) (by omega) (.first needed room)
      (early.trans (precedes_of_gap skipped)) (.refl there)

theorem seq_mimics_rep (fuel : Nat) (start : Position) :
    Mimics (eval env (fuel + 3) (.seq body [.rep body (min - 1) (max.map (· - 1))]) start atomic)
      (eval env (fuel + 3) (.rep body min max) start atomic) := by
  rw [eval_rep_of_room (room_of_small room Nat.zero_lt_two),
    turn_of_room unlimited (room_of_small room Nat.one_lt_two)]
  refine Mimics.congr_left (fun state => seq_pair_withoutNodes (fuel + 2) _ start state) ?_
  have approximates : (eval env (fuel + 2)).Approximates (eval env (fuel + 2)) :=
    Eval.eval_approximates env (Nat.le_refl _)
  refine .bind (approximates body start atomic) fun result before after ended => ?_
  cases result with
  | none =>
    rw [Clause.rep, if_pos (show (#[] : Array (Option Node)).size < min from needed)]
    exact .refl _
  | some item =>
    have early := precedes_of_eval env _ body start atomic ended
    refine .bind (Eval.gapUnless_approximates approximates atomic item.stop)
      fun there before after skipped => ?_
    rw [eval_rep_of_room (room_of_less room)]
    exact turn_mimics unlimited (by omega) (by omega) (InStep.first needed room).symm
      (.refl there) (early.trans (precedes_of_gap skipped))

end Halves

/-! ### Copies in a row -/

/-- A repetition that needs and allows so many matches goes on as a sequence of copies of its body
does, if it has rounds enough for them. -/
theorem repetition_eq_copies {env : Env} (unlimited : env.repeatLimit = none) {run : Eval.Matcher}
    {body : Expr} {atomic : Bool} {start : Position} {count left rounds : Nat}
    (enough : left < rounds) {found : Array (Option Node)} (due : found.size + left = count)
    (here : Position) (before : State) :
    (Eval.repetition env run body count (some count) atomic start rounds here found
        before).withoutNodes =
      (Eval.items run atomic start (List.replicate left body) here found before).withoutNodes := by
  induction left generalizing rounds here found before with
  | zero =>
    obtain ⟨rounds, rfl⟩ := Nat.exists_eq_add_of_lt enough
    have full : (some count).any (· ≤ found.size) = true := by
      simp only [Option.any_some, decide_eq_true_eq]
      omega
    rw [Eval.repetition_of_full full, Clause.rep, if_neg (by omega)]
    change _ = (Clause.seq start here found before).withoutNodes
    unfold Clause.seq Action.span
    cases start.spanTo here with
    | ok span => rfl
    | error error => rfl
  | succ left ih =>
    obtain ⟨rounds, rfl⟩ := Nat.exists_eq_add_of_lt enough
    have notFull : (some count).any (· ≤ found.size) = false :=
      any_eq_false_of_lt fun _ bounded => by
        obtain rfl := Option.some.inj bounded
        omega
    rw [Eval.repetition_of_room notFull, List.replicate_succ, Eval.items]
    cases skipped : Eval.gapUnless run (found.isEmpty || atomic) here before with
    | fault cause after => rw [Action.bind_of_fault skipped, Action.bind_of_fault skipped]
    | exhausted => rw [Action.bind_of_exhausted skipped, Action.bind_of_exhausted skipped]
    | done there middle =>
      rw [Action.bind_of_done skipped, Action.bind_of_done skipped, Eval.turn]
      cases ended : run body there atomic middle with
      | fault cause after => rw [Action.bind_of_fault ended, Action.bind_of_fault ended]
      | exhausted => rw [Action.bind_of_exhausted ended, Action.bind_of_exhausted ended]
      | done result after =>
        rw [Action.bind_of_done ended, Action.bind_of_done ended]
        cases result with
        | none =>
          rw [Clause.rep, if_pos (by omega)]
        | some item =>
          dsimp only
          rw [Clause.beyondLimit_of_unlimited unlimited]
          refine ih (by omega) ?_ item.stop after
          rw [Array.size_push]
          omega

/-! ### Main result -/

/-- Ends of the one expression are ends of the other, if that mimics it with any amount of fuel. -/
theorem exists_run_of_mimics {env : Env} {left right : Expr} {start : Position} {atomic : Bool}
    {before : State} {outcome : Outcome (Option Position)} (ended : outcome ≠ .exhausted)
    (mimics : ∀ fuel, ∃ less more, fuel ≤ less ∧
      Mimics (eval env less left start atomic) (eval env more right start atomic))
    (runs : ∃ moves, (run env moves left start atomic before).withoutNodes = outcome) :
    ∃ moves, (run env moves right start atomic before).withoutNodes = outcome := by
  rw [exists_run_iff_exists_eval (Outcome.withoutNodes · = outcome) ended.symm] at runs ⊢
  obtain ⟨fuel, reached⟩ := runs
  obtain ⟨less, more, le, mimics⟩ := mimics fuel
  have finished : eval env fuel left start atomic before ≠ .exhausted := fun endless =>
    ended (reached.symm.trans (congrArg Outcome.withoutNodes endless))
  -- With more fuel the one comes to the same end, and then so does the other.
  have same := (Eval.eval_approximates env le left start atomic before).resolve_left finished
  rw [← same] at reached finished
  exact ⟨more, ((mimics before).resolve_left finished).trans reached⟩

theorem sameEnds_of_mimics {env : Env} {left right : Expr} {start : Position} {atomic : Bool}
    (forth : ∀ fuel, ∃ less more, fuel ≤ less ∧
      Mimics (eval env less left start atomic) (eval env more right start atomic))
    (back : ∀ fuel, ∃ less more, fuel ≤ less ∧
      Mimics (eval env less right start atomic) (eval env more left start atomic))
    (before : State) : SameEnds env left right start atomic before :=
  fun _ ended => ⟨exists_run_of_mimics ended forth, exists_run_of_mimics ended back⟩

theorem sameEnds_unrolled {env : Env} (unlimited : env.repeatLimit = none) (body : Expr)
    {min : Nat} (needed : 1 ≤ min) {max : Option Nat} (room : ∀ bound, max = some bound → 2 ≤ bound)
    (start : Position) (atomic : Bool) (before : State) :
    SameEnds env (.rep body min max) (.seq body [.rep body (min - 1) (max.map (· - 1))]) start
      atomic before :=
  sameEnds_of_mimics
    (fun fuel => ⟨fuel + 3, fuel + 5, by omega, rep_mimics_seq unlimited needed room fuel start⟩)
    (fun fuel => ⟨fuel + 3, fuel + 3, by omega, seq_mimics_rep unlimited needed room fuel start⟩)
    before

theorem sameEnds_copies {env : Env} (unlimited : env.repeatLimit = none) (body : Expr)
    {count : Nat} (needed : 1 ≤ count) (start : Position) (atomic : Bool) (before : State) :
    SameEnds env (.rep body count (some count)) (.seq body (List.replicate (count - 1) body))
      start atomic before := by
  have copies : body :: List.replicate (count - 1) body = List.replicate count body := by
    rw [← List.replicate_succ, Nat.sub_add_cancel needed]
  have same (fuel : Nat) (before : State) :
      (eval env (fuel + count + 1 + 1) (.rep body count (some count)) start atomic
          before).withoutNodes =
        (eval env (fuel + count + 1 + 1) (.seq body (List.replicate (count - 1) body)) start atomic
          before).withoutNodes := by
    simp only [eval]
    rw [copies]
    exact repetition_eq_copies unlimited (by omega) (Nat.zero_add count) start before
  exact sameEnds_of_mimics
    (fun fuel => ⟨_, _, by omega, .congr_right (fun state => (same fuel state).symm) (.refl _)⟩)
    (fun fuel => ⟨_, _, by omega, .congr_right (same fuel) (.refl _)⟩) before

/-- Without a limit, a repetition that needs a match and may have two comes to the same ends as its
body and then a repetition with one match less, whatever the body does to the stack. In particular
one or more matches are one match and then any number. Where exactly so many matches are needed, the
repetition comes to the same ends as so many copies of its body in a row. -/
theorem repetition_unrolls (env : Env) (unlimited : env.repeatLimit = none) (body : Expr)
    (start : Position) (atomic : Bool) (before : State) :
    (∀ min max, 1 ≤ min → (∀ bound, max = some bound → 2 ≤ bound) →
        SameEnds env (.rep body min max) (.seq body [.rep body (min - 1) (max.map (· - 1))]) start
          atomic before) ∧
      SameEnds env (.repOnce body) (.seq body [.rep body 0 none]) start atomic before ∧
        ∀ count, 1 ≤ count →
          SameEnds env (.rep body count (some count))
            (.seq body (List.replicate (count - 1) body)) start atomic before :=
  ⟨fun _ _ needed room => sameEnds_unrolled unlimited body needed room start atomic before,
    sameEnds_unrolled unlimited body (Nat.le_refl 1) (by rintro _ ⟨⟩) start atomic before,
    fun _ needed => sameEnds_copies unlimited body needed start atomic before⟩

/-- Letters that are put on the stack, with a blank behind them. A third one is missing, so that
three fail; one or two, or any number, end behind the blank in either way. -/
theorem pushed_letters_unrolled :
    let env : Env := { input := ⟨0, #['a', 'a', ' ']⟩, whitespace := some (.literal " ") }
    let letter : Expr := .push (.literal "a")
    env.repeatLimit = none ∧
      SameEnds env (.rep letter 1 (some 3)) (.seq letter [.rep letter 0 (some 2)])
        (.start env.input) false {} ∧
      SameEnds env (.repOnce letter) (.seq letter [.rep letter 0 none]) (.start env.input) false
        {} ∧
      SameEnds env (.rep letter 3 (some 3)) (.seq letter [letter, letter]) (.start env.input) false
        {} ∧
      (∃ after, (run env 60 (.rep letter 1 (some 3)) (.start env.input) false {}).withoutNodes =
        .done (some ⟨env.input, 3, by decide⟩) after ∧ after.stack.items.length = 2) := by
  intro env letter
  obtain ⟨unrolled, once, copies⟩ :=
    repetition_unrolls env rfl letter (.start env.input) false {}
  exact ⟨rfl, unrolled 1 (some 3) (by decide) (by rintro _ ⟨⟩; decide), once,
    copies 3 (by decide), _, rfl, rfl⟩

/-- With one match allowed, the blank behind the letter is not skipped by the repetition, but by the
sequence. -/
example :
    let env : Env := { input := ⟨0, #['a', ' ']⟩, whitespace := some (.literal " ") }
    let letter : Expr := .literal "a"
    let stop (expr : Expr) := match run env 60 expr (.start env.input) false {} with
      | .done result _ => result.map fun found => found.stop.offset
      | _ => none
    stop (.rep letter 1 (some 1)) = some 1 ∧
      stop (.seq letter [.rep letter 0 (some 0)]) = some 2 := ⟨rfl, rfl⟩

end Peg
