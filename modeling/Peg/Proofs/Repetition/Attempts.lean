import Mathlib.Data.ENat.Lattice
import Peg.Proofs.Machine.Limits
import Peg.Proofs.Repetition.Unrolling

/-!
# Repetitions take what they can

The body of a repetition is attempted again and again, each time where the attempt before ended and
in the state that it left, and after ignored text unless matching is atomic. A repetition makes
these attempts until one fails, until it has as many matches as it may have, or until it has one
match more than the limit allows. Which of these comes first, and where the repetition ends then,
follows from the number of attempts that succeed, which may be infinite.

With enough fuel, the loop of the evaluation goes through the attempts that succeed and arrives at
the last of them with their nodes. What it does there is one of its four ends.

## Main result

A repetition ends as the attempts say. If it may have no more matches than the limit allows, it
never meets the limit; that is an invariant of the machine.
-/
namespace Peg

/-! ### Attempts -/

section Attempts

variable (env : Env) (body : Expr) (atomic : Bool)

/-- Ignored text is skipped in front of an attempt, unless it may not stand there. -/
def Skips (forbidden : Bool) (here : Position) (before : State) (there : Position)
    (after : State) : Prop :=
  if forbidden then there = here ∧ after = before
  else ∃ gap, Finishes env .ignored here false before (some gap) after ∧ gap.stop = there

/-- The body is attempted after so many matches, and the attempt has a result. -/
def Attempt (count : Nat) (here : Position) (before : State) (there : Position)
    (result : Option Match) (after : State) : Prop :=
  ∃ middle, Skips env (count == 0 || atomic) here before there middle ∧
    Finishes env body there atomic middle result after

/-- The first attempts succeed with these nodes, and leave a position and a state. -/
inductive Rounds (start : Position) (before : State) :
    List (Option Node) → Position → State → Prop
  | nil : Rounds start before [] start before
  | snoc {nodes : List (Option Node)} {here there : Position} {middle after : State} {item : Match}
      (rounds : Rounds start before nodes here middle)
      (attempt : Attempt env body atomic nodes.length here middle there (some item) after) :
      Rounds start before (nodes ++ [item.node]) item.stop after

/-- So many attempts succeed before the first one that fails, or all of them do. -/
structure Succeeds (start : Position) (before : State) (number : ℕ∞) : Prop where
  rounds : ∀ count : Nat, count ≤ number → ∃ nodes here after,
    nodes.length = count ∧ Rounds env body atomic start before nodes here after
  fails : ∀ count : Nat, number = count → ∃ nodes here middle there after,
    nodes.length = count ∧ Rounds env body atomic start before nodes here middle ∧
      Attempt env body atomic count here middle there none after

end Attempts

/-! ### Attempts with enough fuel -/

section Fuel

variable {env : Env} {body : Expr} {atomic : Bool}

theorem Finishes.eventually {expr : Expr} {start : Position} {before after : State}
    {result : Option Match} (finishes : Finishes env expr start atomic before result after) :
    Eventually fun fuel => eval env fuel expr start atomic before = .done result after := by
  obtain ⟨least, ended⟩ := finishes_iff_eval.mp finishes
  refine ⟨least, fun fuel enough => ?_⟩
  rcases Eval.eval_approximates env enough expr start atomic before with endless | same
  · cases ended.symm.trans endless
  · exact same.trans ended

theorem Skips.eventually {forbidden : Bool} {here there : Position} {before after : State}
    (skips : Skips env forbidden here before there after) : Eventually fun fuel =>
      Eval.gapUnless (eval env fuel) forbidden here before = .done there after := by
  unfold Skips at skips
  cases forbidden with
  | true =>
    obtain ⟨rfl, rfl⟩ := skips
    exact ⟨0, fun _ _ => rfl⟩
  | false =>
    obtain ⟨gap, skipped, rfl⟩ := skips
    refine skipped.eventually.mono fun fuel ended => ?_
    rw [Eval.gapUnless, if_neg Bool.false_ne_true, Eval.gap, Action.bind_of_done ended]
    rfl

variable {start here there : Position} {before middle after : State}

/-- An attempt after some matches, as the loop of the evaluation makes it. -/
theorem Attempt.eventually {nodes : List (Option Node)} {result : Option Match}
    (attempt : Attempt env body atomic nodes.length here before there result after) :
    Eventually fun fuel => ∃ middle,
      Eval.gapUnless (eval env fuel) (nodes.toArray.isEmpty || atomic) here before =
          .done there middle ∧
        eval env fuel body there atomic middle = .done result after := by
  obtain ⟨middle, skips, ends⟩ := attempt
  have first : (nodes.length == 0) = nodes.toArray.isEmpty := by cases nodes <;> rfl
  rw [first] at skips
  exact (skips.eventually.and ends.eventually).mono fun fuel both => ⟨middle, both⟩

theorem Attempt.precedes {count : Nat} {result : Option Match}
    (attempt : Attempt env body atomic count here before there result after) :
    here.Precedes there := by
  obtain ⟨middle, skips, _⟩ := attempt
  obtain ⟨fuel, skipped⟩ := skips.eventually
  exact precedes_of_gap (skipped fuel (Nat.le_refl fuel))

theorem Rounds.precedes {nodes : List (Option Node)}
    (rounds : Rounds env body atomic start before nodes here after) : start.Precedes here := by
  induction rounds with
  | nil => exact .refl start
  | snoc _ attempt ih =>
    have early := attempt.precedes
    obtain ⟨middle, _, ends⟩ := attempt
    obtain ⟨fuel, ended⟩ := finishes_iff_eval.mp ends
    exact (ih.trans early).trans (precedes_of_eval _ _ _ _ _ ended)

/-- A repetition may have so many matches. -/
structure Allowed (env : Env) (max : Option Nat) (count : Nat) : Prop where
  le_max : ∀ bound, max = some bound → count ≤ bound
  le_limit : ∀ limit, env.repeatLimit = some limit → count ≤ limit

variable {min : Nat} {max : Option Nat}

/-- The loop of the evaluation goes through the attempts that succeed, one round for each. -/
theorem Rounds.eventually {nodes : List (Option Node)}
    (rounds : Rounds env body atomic start before nodes here after) (min : Nat)
    (allowed : Allowed env max nodes.length) : Eventually fun fuel => ∀ rest,
      Eval.repetition env (eval env fuel) body min max atomic start (rest + nodes.length) start #[]
          before =
        Eval.repetition env (eval env fuel) body min max atomic start rest here nodes.toArray
          after := by
  induction rounds with
  | nil => exact ⟨0, fun _ _ _ => rfl⟩
  | @snoc nodes here there middle after item rounds attempt ih =>
    have length : (nodes ++ [item.node]).length = nodes.length + 1 := List.length_append
    have room : max.any (· ≤ nodes.toArray.size) = false :=
      any_eq_false_of_lt fun bound bounded => by
        have := allowed.le_max bound bounded
        rwa [length] at this
    have within : Clause.beyondLimit env (nodes.toArray.push item.node).size = .none :=
      Clause.beyondLimit_eq_none fun limit limited => by
        rw [Array.size_push]
        exact length ▸ allowed.le_limit limit limited
    have fewer : Allowed env max nodes.length :=
      ⟨fun bound bounded => Nat.le_of_succ_le (length.symm.trans_le (allowed.le_max bound bounded)),
        fun limit limited =>
          Nat.le_of_succ_le (length.symm.trans_le (allowed.le_limit limit limited))⟩
    refine ((ih fewer).and attempt.eventually).mono fun fuel both rest => ?_
    obtain ⟨earlier, ⟨middle, skipped, ended⟩⟩ := both
    rw [length, Nat.add_comm nodes.length, ← Nat.add_assoc, earlier (rest + 1),
      Eval.repetition_of_room room, Action.bind_of_done skipped, Eval.turn,
      Action.bind_of_done ended]
    dsimp only
    rw [within, List.push_toArray]

/-- A repetition ends as its loop does after the attempts that succeed. -/
theorem Rounds.finishes {nodes : List (Option Node)} {result : Option Match}
    (rounds : Rounds env body atomic start before nodes here middle)
    (allowed : Allowed env max nodes.length) (ends : Eventually fun fuel => ∀ rest,
      Eval.repetition env (eval env fuel) body min max atomic start (rest + 1) here nodes.toArray
        middle = .done result after) :
    Finishes env (.rep body min max) start atomic before result after := by
  obtain ⟨least, sufficient⟩ :=
    (rounds.eventually min allowed).and (ends.and (.above nodes.length))
  obtain ⟨through, ended, enough⟩ := sufficient least (Nat.le_refl least)
  obtain ⟨rest, split⟩ := Nat.exists_eq_add_of_lt enough
  refine finishes_iff_eval.mpr ⟨least + 1, ?_⟩
  have spent : eval env (least + 1) (.rep body min max) start atomic before =
      Eval.repetition env (eval env least) body min max atomic start (rest + 1 + nodes.length)
        start #[] before := by
    rw [eval]
    congr 1
    omega
  rw [spent, through (rest + 1), ended rest]

end Fuel

/-! ### The ends of a repetition -/

section Ends

variable {env : Env} {body : Expr} {atomic : Bool} {start here there : Position}
  {before middle after : State} {min : Nat} {max : Option Nat} {nodes : List (Option Node)}

/-- What a repetition that came to its end with these nodes answers. -/
def Concludes (env : Env) (body : Expr) (min : Nat) (max : Option Nat) (start : Position)
    (atomic : Bool) (before : State) (nodes : List (Option Node)) (stop : Position)
    (after : State) : Prop :=
  (nodes.length < min → Finishes env (.rep body min max) start atomic before none after) ∧
    (min ≤ nodes.length → ∃ span, span.Covers start stop ∧
      Finishes env (.rep body min max) start atomic before
        (some ⟨stop, some (.rep span nodes)⟩) after)

theorem Rounds.concludes {stop : Position}
    (rounds : Rounds env body atomic start before nodes here middle)
    (allowed : Allowed env max nodes.length) (ordered : start.Precedes stop)
    (ends : Eventually fun fuel => ∀ rest,
      Eval.repetition env (eval env fuel) body min max atomic start (rest + 1) here nodes.toArray
        middle = Clause.rep min start stop nodes.toArray after) :
    Concludes env body min max start atomic before nodes stop after := by
  refine ⟨fun few => rounds.finishes allowed (ends.mono fun fuel ended rest => ?_),
    fun enough => ?_⟩
  · rw [ended rest, Clause.rep, if_pos (by simpa using few)]
    rfl
  · obtain ⟨span, made, covers⟩ := Span.spanTo_eq_ok ordered
    refine ⟨span, covers, rounds.finishes allowed (ends.mono fun fuel ended rest => ?_)⟩
    rw [ended rest, Clause.rep, if_neg (by simpa using enough), Action.span, made]
    rfl

/-- With as many matches as it may have, a repetition ends behind the last of them. -/
theorem Rounds.concludes_full (rounds : Rounds env body atomic start before nodes here after)
    (full : max = some nodes.length)
    (within : ∀ limit, env.repeatLimit = some limit → nodes.length ≤ limit) :
    Concludes env body min max start atomic before nodes here after := by
  subst full
  refine rounds.concludes ⟨?_, within⟩ rounds.precedes ⟨0, fun fuel _ rest => ?_⟩
  · rintro _ ⟨⟩
    exact Nat.le_refl _
  · rw [Eval.repetition_of_full (by simp)]

/-- With room for a further match, a repetition ends where the attempt at it fails. -/
theorem Rounds.concludes_failed (rounds : Rounds env body atomic start before nodes here middle)
    (attempt : Attempt env body atomic nodes.length here middle there none after)
    (room : ∀ bound, max = some bound → nodes.length < bound)
    (within : ∀ limit, env.repeatLimit = some limit → nodes.length ≤ limit) :
    Concludes env body min max start atomic before nodes there after := by
  have allowed : Allowed env max nodes.length :=
    ⟨fun bound bounded => Nat.le_of_lt (room bound bounded), within⟩
  have ordered := rounds.precedes.trans attempt.precedes
  refine rounds.concludes allowed ordered (attempt.eventually.mono fun fuel both rest => ?_)
  obtain ⟨middle, skipped, ended⟩ := both
  rw [Eval.repetition_of_room (any_eq_false_of_lt (by simpa using room)),
    Action.bind_of_done skipped, Eval.turn, Action.bind_of_done ended]

/-- With one match more than the limit allows, a repetition fails. -/
theorem Rounds.finishes_beyond {limit : Nat} (limited : env.repeatLimit = some limit)
    (rounds : Rounds env body atomic start before nodes here after)
    (beyond : nodes.length = limit + 1)
    (room : ∀ bound, max = some bound → limit + 1 ≤ bound) :
    Finishes env (.rep body min max) start atomic before none
      { after with tracker := after.tracker.recordRepeatLimit limit here.offset } := by
  cases rounds with
  | nil => cases beyond
  | @snoc nodes here there middle after item rounds attempt =>
    have length : nodes.length = limit := by simpa using beyond
    have allowed : Allowed env max nodes.length := by
      refine ⟨fun bound bounded => ?_, fun bound bounded => ?_⟩
      · rw [length]
        exact Nat.le_of_succ_le (room bound bounded)
      · cases limited.symm.trans bounded
        exact Nat.le_of_eq length
    refine rounds.finishes allowed (attempt.eventually.mono fun fuel both rest => ?_)
    obtain ⟨middle, skipped, ended⟩ := both
    have free : max.any (· ≤ nodes.toArray.size) = false := any_eq_false_of_lt (by
      simpa [length] using room)
    have met : Clause.beyondLimit env (nodes.toArray.push item.node).size = some limit := by
      simp [Clause.beyondLimit, limited, length]
    rw [Eval.repetition_of_room free, Action.bind_of_done skipped, Eval.turn,
      Action.bind_of_done ended]
    dsimp only
    rw [met]
    rfl

end Ends

/-! ### Repetitions within the limit -/

/-- A repetition waits that has fewer matches than it may have. -/
inductive Frame.Lacks (bound : Nat) : Frame → Prop
  | item {loop : Repetition} {here : Position} {found : Array (Option Node)}
      (maximum : loop.max = some bound) (fewer : found.size < bound) :
      Lacks bound (.repItem loop here found)
  | gap {loop : Repetition} {here : Position} {found : Array (Option Node)}
      (maximum : loop.max = some bound) (fewer : found.size < bound) :
      Lacks bound (.repGap loop here found)

namespace Machine

open Peg.Action (Meets)

variable {env : Env} {bound : Nat}

/-- The frames that wait once a move is made. -/
def Configuration.waiting (config : Configuration) : List Frame :=
  match config.move with
  | .call frame .. => frame :: config.frames
  | .answer _ | .enter .. => config.frames

/-- A repetition with a maximum is matched: it has come to its end, or it still waits, behind all
others, with fewer matches than it may have. -/
def Configuration.Lacks (bound : Nat) (config : Configuration) : Prop :=
  (∃ result, config.move = .answer result ∧ config.frames = []) ∨
    ∃ frame, config.waiting.getLast? = some frame ∧ frame.Lacks bound

/-- A move that ends a repetition, or lets it wait with fewer matches than it may have. -/
def Move.Lacks (bound : Nat) (move : Move) : Prop :=
  (∃ result, move = .answer result) ∨
    ∃ frame expr here atomic, move = .call frame expr here atomic ∧ frame.Lacks bound

theorem Move.Lacks.configuration {move : Move} (lacks : Move.Lacks bound move) (state : State) :
    Configuration.Lacks bound ⟨move, [], state⟩ := by
  rcases lacks with ⟨result, rfl⟩ | ⟨frame, expr, here, atomic, rfl, lacks⟩
  · exact .inl ⟨result, rfl, rfl⟩
  · exact .inr ⟨frame, rfl, lacks⟩

theorem conclude_lacks (clause : Action (Option Match)) :
    Meets false (conclude clause) (Move.Lacks bound) :=
  (Meets.any _).bind fun result _ => .pure (.inl ⟨result, rfl⟩)

theorem continueRep_lacks {loop : Repetition} (maximum : loop.max = some bound) (here : Position)
    (found : Array (Option Node)) :
    Meets false (continueRep loop here found) (Move.Lacks bound) := by
  unfold continueRep
  split
  · exact conclude_lacks _
  · next room =>
    have fewer : found.size < bound := by simpa [maximum] using room
    split
    · exact .pure (.inr ⟨_, _, _, _, rfl, .item maximum fewer⟩)
    · exact .pure (.inr ⟨_, _, _, _, rfl, .gap maximum fewer⟩)

theorem receive_lacks {frame : Frame} (lacks : frame.Lacks bound) (result : Option Match) :
    Meets false (receive env frame result) (Move.Lacks bound) := by
  cases lacks with
  | item maximum fewer =>
    cases result with
    | none => exact conclude_lacks _
    | some item =>
      simp only [receive]
      split
      · exact conclude_lacks _
      · exact continueRep_lacks maximum item.stop _
  | gap maximum fewer => exact .pure (.inr ⟨_, _, _, _, rfl, .item maximum fewer⟩)

namespace Configuration

/-- The outermost frame stays the same while others wait on top of it. -/
theorem getLast?_waiting {frames : List Frame} {frame : Frame}
    (last : frames.getLast? = some frame) (move : Move) (state : State) :
    (waiting ⟨move, frames, state⟩).getLast? = some frame := by
  cases move with
  | answer | enter => exact last
  | call inner expr here atomic =>
    rw [waiting, List.getLast?_cons, last]
    rfl

theorem Lacks.moves {config next : Configuration} (lacks : config.Lacks bound)
    (moves : Moves env config next) : next.Lacks bound := by
  obtain ⟨move, frames, state⟩ := config
  cases moves with
  | step taken made =>
    rcases lacks with ⟨result, rfl, rfl⟩ | ⟨frame, last, lacks⟩
    · cases taken
    · cases move with
      | enter expr here atomic | call inner expr here atomic =>
        cases taken
        exact .inr ⟨frame, getLast?_waiting last _ _, lacks⟩
      | answer result =>
        match frames with
        | [] => cases taken
        | [only] =>
          -- The repetition itself receives a result.
          cases taken
          cases last
          exact ((receive_lacks lacks result).sound made).configuration _
        | receiver :: other :: frames =>
          cases taken
          rw [waiting, List.getLast?_cons_cons] at last
          exact .inr ⟨frame, getLast?_waiting last _ _, lacks⟩

/-- While a repetition has fewer matches than it may have, it does not meet a limit that is no less
than that. -/
theorem Lacks.meetsLimit_eq_false {config : Configuration} (lacks : config.Lacks bound)
    {limit : Nat} (limited : env.repeatLimit = some limit) (le : bound ≤ limit)
    (outermost : config.frames.length = 1) : config.meetsLimit env = false := by
  obtain ⟨move, frames, state⟩ := config
  obtain ⟨frame, rfl⟩ := List.length_eq_one_iff.mp outermost
  rcases lacks with ⟨result, rfl, ended⟩ | ⟨other, last, lacks⟩
  · cases ended
  · cases move with
    | enter | call => rfl
    | answer result =>
      cases last
      cases lacks with
      | gap => cases result <;> rfl
      | item maximum fewer =>
        cases result with
        | none => rfl
        | some item =>
          have within : Clause.beyondLimit env (_ + 1) = none :=
            Clause.beyondLimit_eq_none fun other same => by
              cases limited.symm.trans same
              exact Nat.le_trans fewer le
          simp only [meetsLimit, within, Option.isSome_none]

end Configuration

/-- Matching a repetition with a maximum goes on with the repetition lacking matches, or ends it. -/
theorem lacks_of_reaches {body : Expr} {min : Nat} {start : Position} {atomic : Bool}
    {before : State} {config : Configuration}
    (reaches : Reaches env (.initial (.rep body min (some bound)) start atomic before) config) :
    config = .initial (.rep body min (some bound)) start atomic before ∨ config.Lacks bound := by
  induction reaches with
  | refl => exact .inl rfl
  | tail _ moves ih =>
    rcases ih with rfl | lacks
    · obtain ⟨taken, made⟩ := moves
      cases taken
      exact .inr (((continueRep_lacks rfl start #[]).sound made).configuration _)
    · exact .inr (lacks.moves moves)

end Machine

/-! ### Main result -/

section Main

variable {env : Env} {body : Expr} {min : Nat} {max : Option Nat} {start : Position}
  {atomic : Bool} {before : State} {number : ℕ∞}

/-- The greatest number of matches, which is infinite if none is given. -/
def greatest (max : Option Nat) : ℕ∞ := max.elim ⊤ Nat.cast

theorem Succeeds.beyond_limit (succeeds : Succeeds env body atomic start before number)
    {limit : Nat} (limited : env.repeatLimit = some limit)
    (beyond : limit < number ⊓ greatest max) :
    ∃ nodes stop after, nodes.length = limit + 1 ∧
      Rounds env body atomic start before nodes stop after ∧
        Finishes env (.rep body min max) start atomic before none
          { after with tracker := after.tracker.recordRepeatLimit limit stop.offset } := by
  obtain ⟨more, room⟩ := lt_inf_iff.mp beyond
  obtain ⟨nodes, stop, after, length, rounds⟩ :=
    succeeds.rounds (limit + 1) (by exact_mod_cast Order.add_one_le_of_lt more)
  refine ⟨nodes, stop, after, length, rounds, rounds.finishes_beyond limited length ?_⟩
  rintro bound rfl
  exact Nat.cast_lt.mp room

theorem Succeeds.within_limit (succeeds : Succeeds env body atomic start before number)
    (ends : number = ⊤ → max ≠ none ∨ env.repeatLimit ≠ none)
    (within : ∀ limit, env.repeatLimit = some limit → number ⊓ greatest max ≤ limit) :
    ∃ nodes here middle stop after, number ⊓ greatest max = nodes.length ∧
      Rounds env body atomic start before nodes here middle ∧
        (if max = some nodes.length then stop = here ∧ after = middle
          else Attempt env body atomic nodes.length here middle stop none after) ∧
          Concludes env body min max start atomic before nodes stop after := by
  have finite : number ⊓ greatest max ≠ ⊤ := by
    intro infinite
    obtain ⟨endless, unbounded⟩ := inf_eq_top_iff.mp infinite
    cases limited : env.repeatLimit with
    | none =>
      cases max with
      | none => rcases ends endless with missing | missing <;> exact missing (by assumption)
      | some bound => exact ENat.natCast_ne_top bound unbounded
    | some limit =>
      have := within limit limited
      rw [infinite] at this
      exact ENat.natCast_ne_top limit (top_le_iff.mp this)
  obtain ⟨count, most⟩ := ENat.ne_top_iff_exists.mp finite
  have le_limit (limit : Nat) (limited : env.repeatLimit = some limit) : count ≤ limit :=
    Nat.cast_le.mp (most.trans_le (within limit limited))
  by_cases full : max = some count
  · obtain ⟨nodes, here, after, rfl, rounds⟩ :=
      succeeds.rounds count (most.trans_le inf_le_left)
    refine ⟨nodes, here, after, here, after, most.symm, rounds, ?_,
      rounds.concludes_full full le_limit⟩
    rw [if_pos full]
    exact ⟨rfl, rfl⟩
  · -- There is room for a further match, so that it is the body that fails.
    have room (bound : Nat) (bounded : max = some bound) : count < bound := by
      subst bounded
      refine Nat.lt_of_le_of_ne (Nat.cast_le.mp (most.trans_le inf_le_right)) ?_
      rintro rfl
      exact full rfl
    have short : number = count := by
      rcases le_total number (greatest max) with le | le
      · exact (inf_eq_left.mpr le).symm.trans most.symm
      · rw [inf_eq_right.mpr le] at most finite
        cases max with
        | none => exact absurd rfl finite
        | some bound => exact absurd (Nat.cast_inj.mp most) (room bound rfl).ne
    obtain ⟨nodes, here, middle, stop, after, rfl, rounds, attempt⟩ := succeeds.fails count short
    refine ⟨nodes, here, middle, stop, after, most.symm, rounds, ?_,
      rounds.concludes_failed attempt room le_limit⟩
    rw [if_neg full]
    exact attempt

/-- Of the attempts at a body, made one after another, a repetition takes as many as succeed, but no
more than it may have. If those are more than the limit allows, it fails after one match more than
that, and the tracker is told so where that match ends. Otherwise it fails if it has too few
matches, and else succeeds with all of them: behind the last one if it may have no more, and else
where the attempt at a further one failed. A repetition that may have no more matches than the limit
allows never meets the limit: not while its own frame, the outermost one, receives a match. -/
theorem repetition_is_greedy (env : Env) (body : Expr) (min : Nat) (max : Option Nat)
    (start : Position) (atomic : Bool) (before : State) :
    (∀ number : ℕ∞, Succeeds env body atomic start before number →
      (number = ⊤ → max ≠ none ∨ env.repeatLimit ≠ none) →
        (∀ limit : Nat, env.repeatLimit = some limit → limit < number ⊓ greatest max →
          ∃ nodes stop after, nodes.length = limit + 1 ∧
            Rounds env body atomic start before nodes stop after ∧
              Finishes env (.rep body min max) start atomic before none
                { after with tracker := after.tracker.recordRepeatLimit limit stop.offset }) ∧
          ((∀ limit : Nat, env.repeatLimit = some limit → number ⊓ greatest max ≤ limit) →
            ∃ nodes here middle stop after, number ⊓ greatest max = nodes.length ∧
              Rounds env body atomic start before nodes here middle ∧
                (if max = some nodes.length then stop = here ∧ after = middle
                  else Attempt env body atomic nodes.length here middle stop none after) ∧
                  Concludes env body min max start atomic before nodes stop after)) ∧
      ∀ bound limit, max = some bound → env.repeatLimit = some limit → bound ≤ limit →
        ∀ config, Machine.Reaches env (.initial (.rep body min max) start atomic before) config →
          config.frames.length = 1 → config.meetsLimit env = false := by
  refine ⟨fun number succeeds ends => ⟨fun limit limited beyond => ?_, fun within => ?_⟩, ?_⟩
  · exact succeeds.beyond_limit limited beyond
  · exact succeeds.within_limit ends within
  · rintro bound limit rfl limited le config reaches outermost
    rcases Machine.lacks_of_reaches reaches with rfl | lacks
    · cases outermost
    · exact lacks.meetsLimit_eq_false limited le outermost

/-- A letter and a blank, of which one attempt in a row succeeds. If no match is allowed, any number
of them fail where the letter ends; else they end behind the blank, where a second letter is
missing. -/
theorem letter_before_blank_repeated :
    let env (limit : Nat) : Env :=
      { input := ⟨0, #['a', ' ']⟩, whitespace := some (.literal " "), repeatLimit := some limit }
    let start : Position := .start ⟨0, #['a', ' ']⟩
    (∀ limit, Succeeds (env limit) (.literal "a") false start {} 1) ∧
      (∃ after, Finishes (env 0) (.rep (.literal "a") 0 none) start false {} none after ∧
        after.tracker.furthest = 1) ∧
      ∃ stop node after, Finishes (env 5) (.rep (.literal "a") 0 none) start false {}
          (some ⟨stop, node⟩) after ∧ stop.offset = 2 := by
  intro env start
  have first (limit : Nat) : Rounds (env limit) (.literal "a") false start {} [_] _ _ :=
    .snoc .nil ⟨_, ⟨rfl, rfl⟩, 5, rfl⟩
  have second (limit : Nat) : ∃ there after, Attempt (env limit) (.literal "a") false 1
      ⟨⟨0, #['a', ' ']⟩, 1, by decide⟩ {} there none after :=
    ⟨_, _, _, ⟨_, ⟨20, rfl⟩, rfl⟩, 5, rfl⟩
  have succeeds (limit : Nat) : Succeeds (env limit) (.literal "a") false start {} 1 := by
    constructor
    · intro count le
      match count, (Nat.cast_le.mp le : count ≤ 1) with
      | 0, _ => exact ⟨[], start, {}, rfl, .nil⟩
      | 1, _ => exact ⟨_, _, _, rfl, first limit⟩
    · intro count same
      obtain rfl : 1 = count := Nat.cast_inj.mp same
      obtain ⟨there, after, attempt⟩ := second limit
      exact ⟨_, _, _, there, after, rfl, first limit, attempt⟩
  have one : (1 : ℕ∞) ⊓ greatest none = (1 : Nat) := inf_top_eq 1
  refine ⟨succeeds, ?_, ?_⟩
  · obtain ⟨beyond, _⟩ := (repetition_is_greedy (env 0) (.literal "a") 0 none start false {}).1 1
      (succeeds 0) nofun
    obtain ⟨nodes, stop, after, _, _, finishes⟩ := beyond 0 rfl (one ▸ Nat.cast_lt.mpr Nat.one_pos)
    obtain ⟨_, same⟩ := finishes.unique ⟨20, rfl⟩
    exact ⟨_, finishes, congrArg (·.tracker.furthest) same⟩
  · obtain ⟨_, within⟩ := (repetition_is_greedy (env 5) (.literal "a") 0 none start false {}).1 1
      (succeeds 5) nofun
    obtain ⟨nodes, here, middle, stop, after, _, _, _, _, concludes⟩ := within (by
      rintro _ ⟨⟩
      exact one ▸ Nat.cast_le.mpr (by decide))
    obtain ⟨span, _, finishes⟩ := concludes (Nat.zero_le _)
    obtain ⟨same, _⟩ := finishes.unique ⟨40, rfl⟩
    have ended := congrArg Match.stop (Option.some.inj same)
    exact ⟨stop, _, after, finishes, congrArg Position.offset ended⟩

end Main

end Peg
