import Peg.Proofs.Equivalence.Clauses

/-!
# Evaluation comes to what is derived

The fate of an expression, as it is evaluated, is derived by the rules, unless it is broken off for
want of a text. The induction is on the fuel; each loop of the evaluation is followed round by
round. That the nodes on the way can be made is known from the places, which never lie before those
where matching began.
-/
namespace Peg

theorem ComesTo.not_fails_of_skip {env : Env} {task : Task} {items : List Span} {fate : Fate}
    (comes : ComesTo env task items fate) {rest : List Expr} {here : Position} {progress : Bool}
    (skips : task = .skip rest here progress) : fate.fails = false := by
  induction comes generalizing rest here progress with
  | skipEnd | skipBroken => rfl
  | skipAgain _ ih => exact ih rfl
  | skipNone _ _ _ ih => exact ih rfl
  | skipStay _ _ _ _ ih => exact ih rfl
  | skipMore _ _ _ _ ih => exact ih rfl
  | _ => cases skips

/-- Ignored text never fails to match. -/
theorem ComesTo.not_failed_of_ignored {env : Env} {here : Position} {atomic : Bool}
    {items after : List Span}
    (comes : ComesTo env (.expr .ignored here atomic) items (.failed after)) : False := by
  cases comes with
  | ignored skipped => cases skipped.not_fails_of_skip rfl

/-- What evaluation with this fuel comes to is derived, unless it lacks a text. -/
structure Derived (env : Env) (fuel : Nat) : Prop where
  expr : ∀ {expr : Expr} {here : Position} {atomic : Bool} {before : State} {fate : Fate},
    (eval env fuel expr here atomic before).fate? = some fate → fate.shown = true →
      ComesTo env (.expr expr here atomic) before.stack.items fate

namespace Derived

variable {env : Env} {fuel : Nat} (derived : Derived env fuel) {expr : Expr}
  {start here stop there : Position} {atomic : Bool} {before after : State} {fate : Fate}

include derived

theorem matched {found : Match}
    (ended : eval env fuel expr here atomic before = .done (some found) after) :
    ComesTo env (.expr expr here atomic) before.stack.items
      (.matched found.stop after.stack.items) := derived.expr (by rw [ended]; rfl) rfl

theorem failed (ended : eval env fuel expr here atomic before = .done none after) :
    ComesTo env (.expr expr here atomic) before.stack.items (.failed after.stack.items) :=
  derived.expr (by rw [ended]; rfl) rfl

theorem broken {cause : Fault}
    (ended : eval env fuel expr here atomic before = .fault cause after)
    (shown : (Fate.broken cause after.stack.items).shown = true) :
    ComesTo env (.expr expr here atomic) before.stack.items (.broken cause after.stack.items) :=
  derived.expr (by rw [ended]; rfl) shown

theorem gap_matched {forbidden : Bool}
    (ended : Eval.gapUnless (eval env fuel) forbidden here before = .done there after) :
    ComesTo env (.gap forbidden here) before.stack.items (.matched there after.stack.items) ∧
      here.Precedes there := by
  cases forbidden with
  | true =>
    cases ended
    exact ⟨.gapNone, .refl here⟩
  | false =>
    obtain ⟨result, middle, ran, went⟩ := Action.bind_eq_done ended
    cases went
    cases result with
    | none => exact (derived.failed ran).not_failed_of_ignored.elim
    | some found => exact ⟨.gap (derived.matched ran), precedes_of_eval env fuel _ here _ ran⟩

theorem gap_broken {forbidden : Bool} {cause : Fault}
    (ended : Eval.gapUnless (eval env fuel) forbidden here before = .fault cause after)
    (shown : (Fate.broken cause after.stack.items).shown = true) :
    ComesTo env (.gap forbidden here) before.stack.items (.broken cause after.stack.items) := by
  cases forbidden with
  | true => cases ended
  | false =>
    have ended : (Eval.gap (eval env fuel) here before).fateBy some =
        some (.broken cause after.stack.items) := congrArg (Outcome.fateBy some) ended
    rcases Action.fateBy_bind ended with ⟨_, _, ran, same⟩ | ⟨result, middle, _, went⟩
    · rw [same] at shown ⊢
      exact .gap (derived.broken ran shown)
    · cases went

theorem items {rest : List Expr} {found : Array (Option Node)} (ordered : start.Precedes here)
    (ended : (Eval.items (eval env fuel) atomic start rest here found before).fate? = some fate)
    (shown : fate.shown = true) :
    ComesTo env (.items rest here found.isEmpty atomic) before.stack.items fate := by
  induction rest generalizing here found before with
  | nil =>
    rw [Eval.items, Clause.seq, Clause.answer_fate ordered] at ended
    cases ended
    exact .itemsEnd
  | cons expr rest ih =>
    rcases Action.fateBy_bind ended with
      ⟨cause, after, skipped, rfl⟩ | ⟨there, middle, skipped, went⟩
    · exact .itemsGap (derived.gap_broken skipped shown) rfl
    obtain ⟨gap, onward⟩ := derived.gap_matched skipped
    rcases Action.fateBy_bind went with ⟨cause, after, ran, rfl⟩ | ⟨result, later, ran, went⟩
    · exact .itemsStop gap (derived.broken ran shown) rfl
    cases result with
    | none =>
      cases went
      exact .itemsStop gap (derived.failed ran) rfl
    | some item =>
      have precedes := precedes_of_eval env fuel _ there _ ran
      have others := ih ((ordered.trans onward).trans precedes) went
      rw [show (found.push item.node).isEmpty = false by simp] at others
      exact .itemsMore gap (derived.matched ran) others

theorem alternatives {rest : List Expr} {index : Nat}
    (ended : (Eval.alternatives (eval env fuel) atomic here index rest before).fate? =
      some fate) (shown : fate.shown = true) :
    ComesTo env (.alternatives rest here atomic) before.stack.items fate := by
  induction rest generalizing index before with
  | nil =>
    cases ended
    exact .alternativesEnd
  | cons expr rest ih =>
    rcases Action.fateBy_bind ended with ⟨cause, after, ran, rfl⟩ | ⟨result, middle, ran, went⟩
    · exact .alternativesFound (derived.broken ran shown) rfl
    cases result with
    | none => exact .alternativesMore (derived.failed ran) (ih went)
    | some found =>
      have precedes := precedes_of_eval env fuel _ here _ ran
      have fate := (Clause.answer_fate precedes _ middle).symm.trans went
      cases fate
      exact .alternativesFound (derived.matched ran) rfl

theorem loop {body : Expr} {min rounds : Nat} {max : Option Nat} {found : Array (Option Node)}
    (ordered : start.Precedes here)
    (ended : (Eval.repetition env (eval env fuel) body min max atomic start rounds here found
      before).fate? = some fate) (shown : fate.shown = true) :
    ComesTo env (.loop body min max atomic found.size here) before.stack.items fate := by
  induction rounds generalizing here found before with
  | zero => cases ended
  | succ rounds ih =>
    have fresh : found.isEmpty = (found.size == 0) := rfl
    rw [Eval.repetition, fresh] at ended
    split at ended
    · next full =>
      rw [Clause.rep_fate ordered] at ended
      exact .loopFull full (Option.some.inj ended)
    · next room =>
      rw [Bool.not_eq_true] at room
      rcases Action.fateBy_bind ended with
        ⟨cause, after, skipped, rfl⟩ | ⟨there, middle, skipped, went⟩
      · exact .loopGap room (derived.gap_broken skipped shown) rfl
      obtain ⟨gap, onward⟩ := derived.gap_matched skipped
      rcases Action.fateBy_bind went with ⟨cause, after, ran, rfl⟩ | ⟨result, later, ran, went⟩
      · exact .loopBroken room gap (derived.broken ran shown)
      cases result with
      | none =>
        have fate := (Clause.rep_fate (ordered.trans onward) min found later).symm.trans went
        exact .loopEnd room gap (derived.failed ran) (Option.some.inj fate)
      | some item =>
        have precedes := precedes_of_eval env fuel _ there _ ran
        have size : (found.push item.node).size = found.size + 1 := Array.size_push _
        cases beyond : Clause.beyondLimit env (found.push item.node).size with
        | some limit =>
          simp only [beyond] at went
          have fails : Fate.failed later.stack.items = fate := Option.some.inj went
          exact fails ▸ .loopLimit room gap (derived.matched ran) (size ▸ beyond)
        | none =>
          simp only [beyond] at went
          have others := ih ((ordered.trans onward).trans precedes) went
          rw [size] at others
          exact .loopMore room gap (derived.matched ran) (size ▸ beyond) others

/-- What is left to do after a loop of skipping: from where it ends, the next task comes to what the
whole one comes to. -/
def Resumes (env : Env) (task : Task) (items : List Span) (next : Position × Bool → Task) :
    Outcome (Position × Bool) → Prop
  | .done reached after =>
    ∀ fate, ComesTo env (next reached) after.stack.items fate → ComesTo env task items fate
  | .fault cause after => (Fate.broken cause after.stack.items).shown = true →
    ComesTo env task items (.broken cause after.stack.items)
  | .exhausted => True

theorem skipOne (skipper : Expr) (rest : List Expr) (rounds : Nat) (here : Position)
    (progress : Bool) (before : State) :
    Resumes env (.skip (skipper :: rest) here progress) before.stack.items
      (fun reached => .skip rest reached.1 reached.2)
      (Eval.skipOne (eval env fuel) skipper rounds here progress before) := by
  induction rounds generalizing here progress before with
  | zero => trivial
  | succ rounds ih =>
    rw [Eval.skipOne]
    cases ran : eval env fuel skipper here true before with
    | fault cause after =>
      rw [Action.bind_of_fault ran]
      exact fun shown => .skipBroken (derived.broken ran shown)
    | exhausted =>
      rw [Action.bind_of_exhausted ran]
      trivial
    | done result middle =>
      rw [Action.bind_of_done ran]
      cases result with
      | none => exact fun fate others => .skipNone (derived.failed ran) others
      | some found =>
        cases stays : found.stop.same here with
        | true =>
          simp only [stays, if_true]
          exact fun fate others => .skipStay (derived.matched ran) stays others
        | false =>
          simp only [stays, Bool.false_eq_true, if_false]
          have again := ih found.stop true middle
          generalize Eval.skipOne (eval env fuel) skipper rounds found.stop true middle = outcome
            at again ⊢
          cases outcome with
          | done reached after =>
            exact fun fate others => .skipMore (derived.matched ran) stays (again fate others)
          | fault cause after =>
            exact fun shown => .skipMore (derived.matched ran) stays (again shown)
          | exhausted => trivial

theorem skipEach (rest : List Expr) (rounds : Nat) (here : Position) (progress : Bool)
    (before : State) :
    Resumes env (.skip rest here progress) before.stack.items
      (fun reached => .skip [] reached.1 reached.2)
      (Eval.skipEach (eval env fuel) rounds rest here progress before) := by
  induction rest generalizing here progress before with
  | nil => exact fun fate comes => comes
  | cons skipper rest ih =>
    have first := derived.skipOne skipper rest rounds here progress before
    rw [Eval.skipEach]
    cases ran : Eval.skipOne (eval env fuel) skipper rounds here progress before with
    | fault cause after =>
      rw [Action.bind_of_fault ran]
      rwa [ran] at first
    | exhausted =>
      rw [Action.bind_of_exhausted ran]
      trivial
    | done reached middle =>
      rw [Action.bind_of_done ran]
      rw [ran] at first
      have others := ih reached.1 reached.2 middle
      dsimp only at others ⊢
      generalize Eval.skipEach (eval env fuel) rounds rest reached.1 reached.2 middle = outcome
        at others ⊢
      cases outcome with
      | done last after => exact fun fate comes => first fate (others fate comes)
      | fault cause after => exact fun shown => first _ (others shown)
      | exhausted => trivial

theorem skipAll (rounds : Nat) {here : Position} {before : State} {fate : Fate}
    (ended : (Eval.skipAll (eval env fuel) env.skippers rounds here before).fateBy some =
      some fate) (shown : fate.shown = true) :
    ComesTo env (.skip env.skippers here false) before.stack.items fate := by
  induction rounds generalizing here before with
  | zero => cases ended
  | succ rounds ih =>
    have each := derived.skipEach env.skippers rounds here false before
    rcases Action.fateBy_bind ended with ⟨cause, after, ran, rfl⟩ | ⟨reached, middle, ran, went⟩
    · rw [ran] at each
      exact each shown
    · rw [ran] at each
      obtain ⟨there, progress⟩ := reached
      cases progress with
      | true => exact each fate (.skipAgain (ih went))
      | false =>
        cases went
        exact each _ .skipEnd

theorem ignored {rounds : Nat}
    (ended : (Eval.ignored env (eval env fuel) rounds here atomic before).fate? = some fate)
    (shown : fate.shown = true) :
    ComesTo env (.expr .ignored here atomic) before.stack.items fate := by
  cases atomic with
  | true =>
    cases ended
    exact .ignoredAtomic
  | false =>
    refine .ignored ?_
    rw [Eval.ignored, Bool.false_or] at ended
    split at ended
    · next empty =>
      cases ended
      rw [List.isEmpty_iff.mp empty]
      exact .skipEnd
    · -- The scope that mutes the tracker does not matter.
      have same := skipAll_sameCourse env fuel here rounds
      refine derived.skipAll rounds ((Action.fateBy_within same .muted).symm.trans ?_) shown
      rcases Action.fateBy_bind ended with ⟨cause, after, ran, rfl⟩ | ⟨stop, middle, ran, went⟩
      · exact congrArg (Outcome.fateBy some) ran
      · cases went
        exact congrArg (Outcome.fateBy some) ran

theorem pair {body : Expr}
    (ended : (Eval.pair (eval env fuel) body here atomic before).fate? = some fate)
    (shown : fate.shown = true) :
    ComesTo env (.expr (.pair body) here atomic) before.stack.items fate := by
  rcases Action.fateBy_bind ended with ⟨cause, after, ran, rfl⟩ | ⟨result, middle, ran, went⟩
  · exact .pairFirst (derived.broken ran shown) rfl
  cases result with
  | none =>
    cases went
    exact .pairFirst (derived.failed ran) rfl
  | some first =>
    rcases Action.fateBy_bind went with ⟨cause, after, also, rfl⟩ | ⟨result, later, also, went⟩
    · exact .pair (derived.matched ran) (derived.broken also shown)
    cases result with
    | none =>
      cases went
      exact .pair (derived.matched ran) (derived.failed also)
    | some second =>
      have early := precedes_of_eval env fuel _ here _ ran
      have late := precedes_of_eval env fuel _ first.stop _ also
      have fate := (Clause.answer_fate (early.trans late) _ later).symm.trans went
      cases fate
      exact .pair (derived.matched ran) (derived.matched also)

end Derived

/-- A change of a fate that is shown was made to one that is. -/
theorem Fate.shown_of_change {change : Fate → Fate}
    (broken : ∀ cause items, change (.broken cause items) = .broken cause items) {fate : Fate}
    (shown : (change fate).shown = true) : fate.shown = true := by
  cases fate with
  | matched | failed => rfl
  | broken cause items => rwa [broken] at shown

/-- What evaluation comes to is derived, unless it lacks a text. -/
theorem Derived.eval (env : Env) (fuel : Nat) : Derived env fuel := by
  induction fuel with
  | zero => exact ⟨fun ended => (nomatch ended)⟩
  | succ fuel derived =>
    refine ⟨fun {expr here atomic before fate} ended shown => ?_⟩
    -- A part that is taken back, or told of, is looked up by its own fate.
    have changed {change : Fate → Fate} {body : Expr}
        (broken : ∀ cause items, change (.broken cause items) = .broken cause items)
        (changes : (Peg.eval env fuel body here atomic before).Changes change
          (Peg.eval env (fuel + 1) expr here atomic before)) :
        ∃ part, ComesTo env (.expr body here atomic) before.stack.items part ∧
          change part = fate := by
      rcases changes with ⟨after, lost⟩ | same
      · rw [lost] at ended
        cases ended
        cases shown
      · obtain ⟨part, ran, rfl⟩ := Option.map_eq_some_iff.mp (same.symm.trans ended)
        exact ⟨part, derived.expr ran (Fate.shown_of_change broken shown), rfl⟩
    cases expr with
    | terminal leaf => exact .terminal ((attempt_fate here leaf before).symm.trans ended)
    | seq first rest => exact .seq (derived.items (.refl here) ended shown)
    | choice first rest => exact .choice (derived.alternatives ended shown)
    | opt body =>
      obtain ⟨part, comes, same⟩ :=
        changed (fun _ _ => rfl) (fate_opt env fuel body here atomic before)
      exact .opt comes same
    | rep body min max => exact .rep (derived.loop (.refl here) ended shown)
    | positive body =>
      obtain ⟨part, comes, same⟩ :=
        changed (fun _ _ => rfl) (fate_positive env fuel body here atomic before)
      exact .positive comes same
    | negative body =>
      obtain ⟨part, comes, same⟩ :=
        changed (fun _ _ => rfl) (fate_negative env fuel body here atomic before)
      exact .negative comes same
    | restorable body =>
      obtain ⟨part, comes, same⟩ :=
        changed (fun _ _ => rfl) (fate_restorable env fuel body here atomic before)
      exact .restorable comes same
    | push body =>
      obtain ⟨part, comes, same⟩ :=
        changed (fun _ _ => rfl) (.inr (fate_push env fuel body here atomic before))
      exact .push comes same
    | rule tag name kind body =>
      have same := fate_rule env fuel body here atomic before tag name kind
      exact .rule (derived.expr (same.symm.trans ended) shown)
    | ref name =>
      cases defined : env.rules.lookup name with
      | some target =>
        rw [fate_ref env fuel here atomic before defined] at ended
        exact .ref defined (derived.expr ended shown)
      | none =>
        rw [fate_refMissing env fuel here atomic before defined] at ended
        cases ended
        exact .refMissing defined
    | lazy cell =>
      cases resolved : env.definitions.resolve cell with
      | ok target =>
        rw [fate_lazy env fuel here atomic before resolved] at ended
        have comes := derived.expr ended shown
        rw [State.remember_stack] at comes
        exact .lazy resolved comes
      | error error =>
        rw [fate_lazyMissing env fuel here atomic before resolved] at ended
        cases ended
        exact .lazyMissing resolved
    | ignored => exact derived.ignored ended shown
    | pair body => exact derived.pair ended shown
    | abstract =>
      cases ended
      exact .abstract

end Peg
