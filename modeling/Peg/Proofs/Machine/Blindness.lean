import Peg.Proofs.Action.Conditions
import Peg.Proofs.Grammar.Roots
import Peg.Proofs.Machine.Endings

/-!
# Atomic matching does not see what is ignored

What is to be ignored is asked for in one place only: where ignored text is matched while not
atomic. A machine that matches something atomic comes to that place only through a rule that turns
atomicity off again. Where no such rule is contained, each move is the same whatever is to be
ignored, and leads to another one of the kind.

The invariant is about the frames that wait as well: those that wait for ignored text never occur,
and the others go on atomically. A root that is not matched atomically itself, but leads to an
atomic rule, starts in the invariant, too.
-/
namespace Peg

/-- The environment with other text to be ignored. -/
def Env.ignoring (env : Env) (whitespace comment : Option Expr) : Env :=
  { env with whitespace := whitespace, comment := comment }

/-- The expression is no rule that turns atomicity off. -/
def Expr.KeepsAtomic (expr : Expr) : Prop :=
  ∀ tag name body, expr ≠ .rule tag name .nonAtomic body

/-- No rule that turns atomicity off is contained. -/
def Closed (env : Env) (expr : Expr) : Prop := Throughout env Expr.KeepsAtomic expr

/-- The expression is matched atomically, or leads to a rule that makes itself atomic. -/
def Sealed (env : Env) (expr : Expr) (atomic : Bool) : Prop :=
  Closed env expr ∧ (atomic = true ∨ LeadsToAtomic env expr)

/-- What waits goes on atomically, and does not wait for ignored text. -/
def Frame.Sealed (env : Env) : Frame → Prop
  | .seqItem _ rest _ atomic | .choice _ _ rest atomic =>
    atomic = true ∧ ∀ expr ∈ rest, Closed env expr
  | .repItem loop _ _ => loop.atomic = true ∧ Closed env loop.body
  | .pairFirst body _ atomic => atomic = true ∧ Closed env body
  | .seqGap .. | .repGap .. | .skip .. => False
  | .opt _ | .positive .. | .negative .. | .restorable | .push _ | .rule .. | .pairSecond .. => True

/-- What is matched next is matched atomically, or about to be. -/
def Move.Sealed (env : Env) : Move → Prop
  | .answer _ => True
  | .enter expr _ atomic => Peg.Sealed env expr atomic
  | .call frame expr _ atomic => frame.Sealed env ∧ atomic = true ∧ Closed env expr

namespace Action.Meets

variable {α : Type}

theorem lookupRule (env : Env) (name : String) :
    Meets false (Action.lookupRule env name) fun target => env.rules.lookup name = some target := by
  unfold Action.lookupRule
  split
  next target defined => exact pure defined
  · exact (fail _).mono fun _ => False.elim

theorem force (env : Env) (cell : LazyCell) :
    Meets false (Action.force env cell) fun target =>
      env.definitions.resolve cell = .ok target := by
  unfold Action.force
  cases resolved : env.definitions.resolve cell with
  | ok target =>
    have made : Meets false (Action.ofExcept Fault.build (.ok target : Except BuildError Expr))
        (· = target) := pure rfl
    exact made.bind fun _ same => (any _).bind fun _ _ => pure (congrArg Except.ok same.symm)
  | error error => exact (fail _).bind fun _ => False.elim

end Action.Meets

namespace Machine

open Peg.Action (Meets)

variable {env : Env} {expr : Expr} {here : Position} {atomic : Bool} {result : Option Match}

theorem sealed_conclude (clause : Action (Option Match)) :
    Meets false (conclude clause) (Move.Sealed env) :=
  (Meets.any clause).bind fun _ _ => .pure trivial

/-! ### What begins -/

/-- Ignored text is only asked for where it may stand. -/
theorem begin_ignoring (whitespace comment : Option Expr) (inside : Sealed env expr atomic) :
    begin (env.ignoring whitespace comment) expr here atomic = begin env expr here atomic := by
  obtain ⟨_, rfl | leads⟩ := inside
  -- What is atomic skips nothing; what leads to a rule is no ignored text.
  · cases expr <;> rfl
  · cases leads <;> rfl

/-- A rule that is matched atomically, or makes itself atomic, matches its body atomically. -/
theorem bodyAtomic_of_sealed {tag : Nat} {name : String} {kind : RuleKind} {body : Expr}
    (inside : Sealed env (.rule tag name kind body) atomic) : kind.bodyAtomic atomic = true := by
  obtain ⟨closed, rfl | ⟨⟨forces⟩⟩⟩ := inside
  · cases kind with
    | nonAtomic => exact absurd rfl (closed.self tag name body)
    | normal | silent | atomic | compoundAtomic => rfl
  · cases kind with
    | normal | silent | nonAtomic => cases forces
    | atomic | compoundAtomic => rfl

theorem atomic_of_sealed (inside : Sealed env expr atomic)
    (leadsNowhere : ¬LeadsToAtomic env expr) : atomic = true := inside.2.resolve_right leadsNowhere

theorem sealed_continueRep {loop : Repetition} (atomic : loop.atomic = true)
    (closed : Closed env loop.body) (here : Position) (found : Array (Option Node)) :
    Meets false (continueRep loop here found) (Move.Sealed env) := by
  unfold continueRep
  split
  · exact sealed_conclude _
  · rw [atomic, Bool.or_true]
    exact .pure ⟨⟨atomic, closed⟩, rfl, closed⟩

theorem sealed_begin (inside : Sealed env expr atomic) (here : Position) :
    Meets false (begin env expr here atomic) (Move.Sealed env) := by
  have closed := inside.1
  cases expr with
  | terminal leaf => exact sealed_conclude _
  | seq first rest =>
    have atomic := atomic_of_sealed inside nofun
    have part : ∀ part ∈ first :: rest, Closed env part := fun part among =>
      closed.part (.seq among)
    rw [List.forall_mem_cons] at part
    exact .pure ⟨⟨atomic, part.2⟩, atomic, part.1⟩
  | choice first rest =>
    have atomic := atomic_of_sealed inside nofun
    have part : ∀ part ∈ first :: rest, Closed env part := fun part among =>
      closed.part (.choice among)
    rw [List.forall_mem_cons] at part
    exact .pure ⟨⟨atomic, part.2⟩, atomic, part.1⟩
  | opt body =>
    have atomic := atomic_of_sealed inside nofun
    exact (Meets.any _).bind fun _ _ => .pure ⟨trivial, atomic, closed.part .opt⟩
  | rep body min max =>
    have atomic := atomic_of_sealed inside nofun
    exact sealed_continueRep atomic (closed.part .rep) here #[]
  | positive body =>
    have atomic := atomic_of_sealed inside nofun
    exact (Meets.any _).bind fun _ _ => (Meets.any _).bind fun _ _ =>
      .pure ⟨trivial, atomic, closed.part .positive⟩
  | negative body =>
    have atomic := atomic_of_sealed inside nofun
    exact (Meets.any _).bind fun _ _ => (Meets.any _).bind fun _ _ =>
      .pure ⟨trivial, atomic, closed.part .negative⟩
  | restorable body =>
    have atomic := atomic_of_sealed inside nofun
    exact (Meets.any _).bind fun _ _ => .pure ⟨trivial, atomic, closed.part .restorable⟩
  | push body =>
    have atomic := atomic_of_sealed inside nofun
    exact .pure ⟨trivial, atomic, closed.part .push⟩
  | rule tag name kind body =>
    have inner := bodyAtomic_of_sealed inside
    exact (Meets.any _).bind fun _ _ => (Meets.any _).bind fun _ _ =>
      .pure ⟨trivial, inner, closed.part .rule⟩
  | ref name =>
    -- The target is what the way to the atomic rule goes on to.
    refine (Meets.lookupRule env name).bind fun target defined =>
      .pure ⟨closed.part (.ref defined), ?_⟩
    refine inside.2.imp_right fun leads => ?_
    cases leads with
    | ref also leads =>
      cases defined.symm.trans also
      exact leads
  | lazy cell =>
    refine (Meets.force env cell).bind fun target resolved =>
      .pure ⟨closed.part (.lazy resolved), ?_⟩
    refine inside.2.imp_right fun leads => ?_
    cases leads with
    | lazy also leads =>
      cases resolved.symm.trans also
      exact leads
  | ignored =>
    have atomic := atomic_of_sealed inside nofun
    subst atomic
    exact .pure trivial
  | pair body =>
    have atomic := atomic_of_sealed inside nofun
    exact .pure ⟨⟨atomic, closed.part .pair⟩, atomic, closed.part .pair⟩
  | abstract => exact (Meets.fail _).mono fun _ => False.elim

/-! ### What goes on -/

theorem receive_ignoring (whitespace comment : Option Expr) {frame : Frame}
    (inside : frame.Sealed env) (result : Option Match) :
    receive (env.ignoring whitespace comment) frame result = receive env frame result := by
  cases frame with
  | skip => exact inside.elim
  | _ => rfl

theorem sealed_receive {frame : Frame} (inside : frame.Sealed env) (result : Option Match) :
    Meets false (receive env frame result) (Move.Sealed env) := by
  cases frame with
  | seqItem start rest found atomic =>
    obtain ⟨rfl, closed⟩ := inside
    cases result with
    | none => exact .pure trivial
    | some item =>
      cases rest with
      | nil => exact sealed_conclude _
      | cons next rest =>
        rw [List.forall_mem_cons] at closed
        exact .pure ⟨⟨rfl, closed.2⟩, rfl, closed.1⟩
  | choice start index rest atomic =>
    obtain ⟨rfl, closed⟩ := inside
    cases result with
    | some found => exact sealed_conclude _
    | none =>
      cases rest with
      | nil => exact .pure trivial
      | cons next rest =>
        rw [List.forall_mem_cons] at closed
        exact .pure ⟨⟨rfl, closed.2⟩, rfl, closed.1⟩
  | repItem loop here found =>
    cases result with
    | none => exact sealed_conclude _
    | some item =>
      simp only [receive]
      split
      · exact sealed_conclude _
      · exact sealed_continueRep inside.1 inside.2 item.stop _
  | pairFirst body start atomic =>
    cases result with
    | none => exact .pure trivial
    | some first => exact .pure ⟨trivial, inside⟩
  | pairSecond start first =>
    cases result with
    | none => exact .pure trivial
    | some second => exact sealed_conclude _
  | opt start | restorable | push start => exact sealed_conclude _
  | positive body start | negative body start | rule name kind start =>
    exact (Meets.any _).bind fun _ _ => sealed_conclude _
  | seqGap | repGap | skip => exact inside.elim

/-- From a move of the kind on, the machine goes the same way whatever is to be ignored. -/
theorem run_ignoring (whitespace comment : Option Expr) (fuel : Nat) {move : Move}
    {frames : List Frame} (next : move.Sealed env) (waiting : ∀ frame ∈ frames, frame.Sealed env)
    (state : State) :
    run (env.ignoring whitespace comment) fuel move frames state =
      run env fuel move frames state := by
  induction fuel generalizing move frames state with
  | zero => rfl
  | succ fuel ih =>
    -- Once the step is the same, what it leads to is a move of the kind again.
    have onward {step : Action Move} {frames : List Frame}
        (steps : Meets false step (Move.Sealed env))
        (waiting : ∀ frame ∈ frames, frame.Sealed env) :
        proceed (env.ignoring whitespace comment) fuel step frames state =
          proceed env fuel step frames state := by
      unfold proceed
      cases stepped : step state with
      | done move after => exact ih (steps.sound stepped) waiting after
      | fault cause after => rfl
      | exhausted => rfl
    cases move with
    | answer result =>
      cases frames with
      | nil => rfl
      | cons frame frames =>
        rw [List.forall_mem_cons] at waiting
        change proceed _ fuel (receive _ frame result) frames state = _
        rw [receive_ignoring whitespace comment waiting.1]
        exact onward (sealed_receive waiting.1 result) waiting.2
    | enter expr here atomic =>
      change proceed _ fuel (begin _ expr here atomic) frames state = _
      rw [begin_ignoring whitespace comment next]
      exact onward (sealed_begin next here) waiting
    | call frame expr here atomic =>
      obtain ⟨suspended, rfl, closed⟩ := next
      have inside : Sealed env expr true := ⟨closed, .inl rfl⟩
      change proceed _ fuel (begin _ expr here true) (frame :: frames) state = _
      rw [begin_ignoring whitespace comment inside]
      exact onward (sealed_begin inside here) (List.forall_mem_cons.mpr ⟨suspended, waiting⟩)

end Machine

/-! ### Main result -/

section Main

variable {env : Env} {expr : Expr} (whitespace comment : Option Expr)

theorem run_ignoring {atomic : Bool} (inside : Sealed env expr atomic) (fuel : Nat)
    (start : Position) :
    run (env.ignoring whitespace comment) fuel expr start atomic =
      run env fuel expr start atomic := by
  funext state
  have next : Move.Sealed env (.enter expr start atomic) := inside
  exact congrArg Halt.settle
    (Machine.run_ignoring whitespace comment fuel next (List.forall_mem_nil _) state)

theorem LeadsToAtomic.ignoring (leads : LeadsToAtomic env expr) :
    LeadsToAtomic (env.ignoring whitespace comment) expr := by
  induction leads with
  | rule forces => exact .rule forces
  | ref defined _ ih => exact .ref defined ih
  | lazy resolved _ ih => exact .lazy resolved ih

/-- After an atomic root nothing is ignored. -/
theorem matchRest_of_leadsToAtomic (leads : LeadsToAtomic env expr) (fuel : Nat) (here : Position) :
    matchRest env fuel expr here = pure here :=
  if_pos (Env.isAtomic_iff.mpr leads)

theorem run_endOfInput_ignoring (fuel : Nat) (here : Position) :
    run (env.ignoring whitespace comment) fuel (.terminal .endOfInput) here false =
      run env fuel (.terminal .endOfInput) here false := by
  -- A terminal is matched in the same way whether atomic or not.
  have same (env : Env) : run env fuel (.terminal .endOfInput) here false =
      run env fuel (.terminal .endOfInput) here true := by
    cases fuel <;> rfl
  rw [same, same]
  exact run_ignoring whitespace comment ⟨.terminal nofun, .inl rfl⟩ fuel here

theorem parsePartial_ignoring (closed : Closed env expr) (leads : LeadsToAtomic env expr)
    (fuel : Nat) :
    parsePartial (env.ignoring whitespace comment) fuel expr = parsePartial env fuel expr := by
  unfold parsePartial
  rw [run_ignoring whitespace comment ⟨closed, .inr leads⟩]
  rfl

theorem parse_ignoring (closed : Closed env expr) (leads : LeadsToAtomic env expr) (fuel : Nat) :
    parse (env.ignoring whitespace comment) fuel expr = parse env fuel expr := by
  unfold parse
  rw [parsePartial_ignoring whitespace comment closed leads]
  simp only [matchRest_of_leadsToAtomic leads,
    matchRest_of_leadsToAtomic (leads.ignoring whitespace comment),
    run_endOfInput_ignoring whitespace comment]
  rfl

end Main

/-- An expression that contains no rule that turns atomicity off is matched atomically in the same
way, with the same result and the same changes of the state, whatever is to be ignored. If it leads
through references and lazy expressions to a rule that makes itself atomic, then a parse of it gives
the same tree, or the same report, too. -/
theorem atomic_matching_sees_nothing_ignored (env : Env) (expr : Expr) (closed : Closed env expr)
    (whitespace comment : Option Expr) :
    (∀ fuel start state, run (env.ignoring whitespace comment) fuel expr start true state =
        run env fuel expr start true state) ∧
      (LeadsToAtomic env expr → ∀ fuel state,
        parse (env.ignoring whitespace comment) fuel expr state = parse env fuel expr state ∧
          parsePartial (env.ignoring whitespace comment) fuel expr state =
            parsePartial env fuel expr state) := by
  constructor
  · intro fuel start state
    rw [run_ignoring whitespace comment ⟨closed, .inl rfl⟩]
  · intro leads fuel state
    rw [parse_ignoring whitespace comment closed leads,
      parsePartial_ignoring whitespace comment closed leads]
    exact ⟨rfl, rfl⟩

/-- A word of two letters, as an atomic rule. -/
def letterPair : Expr := .rule 0 "word" .atomic (.seq (.literal "a") [.literal "b"])

theorem letterPair_closed (env : Env) : Closed env letterPair := by
  have atomic : letterPair.KeepsAtomic := by
    intro tag name body same
    cases same
  refine .of_parts atomic fun part uses => ?_
  cases uses with
  | rule =>
    refine .of_parts nofun fun part uses => ?_
    cases uses with
    | seq among =>
      rw [List.mem_cons, List.mem_singleton] at among
      rcases among with rfl | rfl <;> exact .terminal nofun

/-- The word is found as it is without spaces to be ignored, and a space behind it stays a fault. -/
theorem word_found_among_spaces :
    ∃ found after report left,
      parse (Env.ignoring { input := ⟨0, #['a', 'b']⟩ } (some (.literal " ")) none) 20 letterPair
          {} = .done (.ok found) after ∧
        parse (Env.ignoring { input := ⟨0, #['a', 'b', ' ']⟩ } (some (.literal " ")) none) 20
          letterPair {} = .done (.error report) left := by
  have found := (atomic_matching_sees_nothing_ignored { input := ⟨0, #['a', 'b']⟩ } letterPair
    (letterPair_closed _) (some (.literal " ")) none).2 (.rule rfl) 20 {}
  have refused := (atomic_matching_sees_nothing_ignored { input := ⟨0, #['a', 'b', ' ']⟩ }
    letterPair (letterPair_closed _) (some (.literal " ")) none).2 (.rule rfl) 20 {}
  exact ⟨_, _, _, _, found.1.trans rfl, refused.1.trans rfl⟩

end Peg
