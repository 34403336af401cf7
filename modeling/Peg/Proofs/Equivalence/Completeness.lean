import Peg.Proofs.Equivalence.Soundness

/-!
# What is derived is evaluated to

A fate that the rules derive is what evaluation comes to, given enough fuel, in whatever state there
is with the items of the derivation. Only where it is to show an expression without a text, as may
be in some of these states, it is broken off instead. The induction is on the derivation. It finds a
bound for three kinds of fuel at once, of expressions, of loops, and of the loop over one kind of
ignored text, since these are spent at different rates.

## Main result

If an expression comes to a fate, it is evaluated to that fate, or it is broken off for want of a
text.
-/
namespace Peg

/-- The outcome has this fate, unless it is broken off for want of a text. -/
def Outcome.HasFateBy {α : Type} (outcome : Outcome α) (stop? : α → Option Position) (fate : Fate) :
    Prop := outcome.Endless ∨ outcome.fateBy stop? = some fate

/-- The outcome of matching has this fate, unless it is broken off for want of a text. -/
def Outcome.HasFate (outcome : Outcome (Option Match)) (fate : Fate) : Prop :=
  outcome.HasFateBy (·.map Match.stop) fate

/-- What is made of an outcome has the fate that is made of its fate. -/
theorem Outcome.HasFate.change {inner outer : Outcome (Option Match)} {change : Fate → Fate}
    {part fate : Fate} (has : inner.HasFate part) (changes : inner.Changes change outer)
    (broken : ∀ cause items, change (.broken cause items) = .broken cause items)
    (same : change part = fate) : outer.HasFate fate := by
  rcases changes with endless | made
  · exact .inl endless
  rcases has with ⟨after, rfl⟩ | comes
  · exact .inl (endless_of_fateBy (made.trans (congrArg some (broken _ after.stack.items))))
  · exact .inr (made.trans ((congrArg (Option.map change) comes).trans (congrArg some same)))

section Fates

variable {α β : Type} {first : Action α} {next : α → Action β} {before : State}
  {stop? : α → Option Position} {stops? : β → Option Position} {fate : Fate}
  {stop : Position} {items : List Span}

theorem Action.hasFateBy_bind_matched
    (part : (first before).HasFateBy stop? (.matched stop items))
    (onward : ∀ value left, first before = .done value left → stop? value = some stop →
      left.stack.items = items → (next value left).HasFateBy stops? fate) :
    ((first >>= next) before).HasFateBy stops? fate := by
  rcases part with endless | part
  · exact .inl (bind_endless endless)
  cases ended : first before with
  | done value left =>
    rw [ended, Outcome.fateBy] at part
    cases stopped : stop? value with
    | none => simp [stopped] at part
    | some place =>
      simp only [stopped, Option.some.injEq, Fate.matched.injEq] at part
      obtain ⟨rfl, rfl⟩ := part
      rw [Action.bind_of_done ended]
      exact onward value left ended stopped rfl
  | fault cause left => rw [ended] at part; cases part
  | exhausted => rw [ended] at part; cases part

theorem Action.hasFateBy_bind_failed (part : (first before).HasFateBy stop? (.failed items))
    (onward : ∀ value left, stop? value = none → left.stack.items = items →
      (next value left).HasFateBy stops? fate) :
    ((first >>= next) before).HasFateBy stops? fate := by
  rcases part with endless | part
  · exact .inl (bind_endless endless)
  cases ended : first before with
  | done value left =>
    rw [ended, Outcome.fateBy] at part
    cases stopped : stop? value with
    | none =>
      simp only [stopped, Option.some.injEq, Fate.failed.injEq] at part
      rw [Action.bind_of_done ended]
      exact onward value left stopped part
    | some place => simp [stopped] at part
  | fault cause left => rw [ended] at part; cases part
  | exhausted => rw [ended] at part; cases part

theorem Action.hasFateBy_bind_broken {cause : Fault}
    (part : (first before).HasFateBy stop? (.broken cause items)) :
    ((first >>= next) before).HasFateBy stops? (.broken cause items) := by
  rcases part with endless | part
  · exact .inl (bind_endless endless)
  cases ended : first before with
  | done value left =>
    rw [ended, Outcome.fateBy] at part
    split at part <;> cases part
  | fault cause left =>
    rw [ended] at part
    rw [Action.bind_of_fault ended]
    exact .inr part
  | exhausted => rw [ended] at part; cases part

/-- A part that does not match is the end of what it is the first part of. -/
theorem Action.hasFateBy_bind_stopped {first : Action (Option Match)}
    {next : Option Match → Action β} (part : (first before).HasFate fate)
    (stopped : fate.matches? = false)
    (ends : ∀ left : State, (next none left).fateBy stops? = some (.failed left.stack.items)) :
    ((first >>= next) before).HasFateBy stops? fate := by
  cases fate with
  | matched stop items => cases stopped
  | broken cause items => exact hasFateBy_bind_broken part
  | failed items =>
    refine hasFateBy_bind_failed part fun value left none same => ?_
    rw [Option.map_eq_none_iff.mp none]
    exact .inr ((ends left).trans (congrArg (some ∘ Fate.failed) same))

theorem Action.hasFateBy_bind_found {first : Action (Option Match)} {next : Option Match → Action β}
    (part : (first before).HasFate (.matched stop items))
    (onward : ∀ found left, first before = .done (some found) left → found.stop = stop →
      left.stack.items = items → (next (some found) left).HasFateBy stops? fate) :
    ((first >>= next) before).HasFateBy stops? fate := by
  refine hasFateBy_bind_matched part fun value left ended stopped same => ?_
  obtain ⟨found, rfl, there⟩ := Option.map_eq_some_iff.mp stopped
  exact onward found left ended there same

/-- What always ends somewhere is broken off if it does not match. -/
theorem Action.hasFateBy_bind_place {first : Action Position} {next : Position → Action β}
    (part : (first before).HasFateBy some fate) (stopped : fate.matches? = false) :
    ((first >>= next) before).HasFateBy stops? fate := by
  cases fate with
  | matched stop items => cases stopped
  | broken cause items => exact hasFateBy_bind_broken part
  | failed items => exact hasFateBy_bind_failed part fun _ _ none _ => nomatch none

end Fates

/-- Something holds whenever there is enough of three kinds of fuel. -/
def Amply (holds : Nat → Nat → Nat → Prop) : Prop :=
  ∃ bound, ∀ fuel rounds first, bound ≤ fuel → bound ≤ rounds → bound ≤ first →
    holds fuel rounds first

namespace Amply

variable {holds also next : Nat → Nat → Nat → Prop}

theorem always (all : ∀ fuel rounds first, holds fuel rounds first) : Amply holds :=
  ⟨0, fun fuel rounds first _ _ _ => all fuel rounds first⟩

theorem mono (amply : Amply holds)
    (weaken : ∀ fuel rounds first, holds fuel rounds first → next fuel rounds first) :
    Amply next := by
  obtain ⟨bound, held⟩ := amply
  exact ⟨bound, fun fuel rounds first enough more most =>
    weaken fuel rounds first (held fuel rounds first enough more most)⟩

theorem and (early : Amply holds) (late : Amply also) :
    Amply fun fuel rounds first => holds fuel rounds first ∧ also fuel rounds first := by
  obtain ⟨bound, held⟩ := early
  obtain ⟨other, also⟩ := late
  refine ⟨max bound other, fun fuel rounds first enough more most => ?_⟩
  exact ⟨held _ _ _ (by omega) (by omega) (by omega), also _ _ _ (by omega) (by omega) (by omega)⟩

theorem succ (all : ∀ fuel rounds first, next (fuel + 1) rounds first) : Amply next := by
  refine ⟨1, fun fuel rounds first enough _ _ => ?_⟩
  obtain ⟨fuel, rfl⟩ := Nat.exists_eq_succ_of_ne_zero (show fuel ≠ 0 by omega)
  exact all fuel rounds first

/-- A unit of fuel goes into an expression, and the rest into what it is made of. -/
theorem deeper (amply : Amply holds)
    (step : ∀ fuel, holds fuel fuel fuel → ∀ rounds first, next (fuel + 1) rounds first) :
    Amply next := by
  obtain ⟨bound, held⟩ := amply
  refine ⟨bound + 1, fun fuel rounds first enough _ _ => ?_⟩
  obtain ⟨fuel, rfl⟩ := Nat.exists_eq_succ_of_ne_zero (show fuel ≠ 0 by omega)
  exact step fuel (held _ _ _ (by omega) (by omega) (by omega)) rounds first

/-- A unit of fuel goes into a round of a loop. -/
theorem round (amply : Amply holds)
    (step : ∀ fuel rounds first, holds fuel rounds first → holds fuel rounds rounds →
      next fuel (rounds + 1) first) : Amply next := by
  obtain ⟨bound, held⟩ := amply
  refine ⟨bound + 1, fun fuel rounds first enough more most => ?_⟩
  obtain ⟨rounds, rfl⟩ := Nat.exists_eq_succ_of_ne_zero (show rounds ≠ 0 by omega)
  exact step fuel rounds first (held _ _ _ (by omega) (by omega) (by omega))
    (held _ _ _ (by omega) (by omega) (by omega))

/-- A unit of fuel goes into a round with one kind of ignored text. -/
theorem again (amply : Amply holds)
    (step : ∀ fuel rounds first, holds fuel rounds first → holds fuel rounds rounds →
      next fuel rounds (first + 1)) : Amply next := by
  obtain ⟨bound, held⟩ := amply
  refine ⟨bound + 1, fun fuel rounds first enough more most => ?_⟩
  obtain ⟨first, rfl⟩ := Nat.exists_eq_succ_of_ne_zero (show first ≠ 0 by omega)
  exact step fuel rounds first (held _ _ _ (by omega) (by omega) (by omega))
    (held _ _ _ (by omega) (by omega) (by omega))

end Amply

namespace Eval

/-- Skips everything again if there was progress. -/
def skipAgain (run : Matcher) (skippers : List Expr) (rounds : Nat) (reached : Position × Bool) :
    Action Position :=
  if reached.2 then skipAll run skippers rounds reached.1 else pure reached.1

/-- Skips the other kinds of ignored text, of which the next one has fuel of its own, and then
everything again if there was progress. -/
def skipFrom (run : Matcher) (skippers : List Expr) (rounds first : Nat) :
    List Expr → Position → (progress : Bool) → Action Position
  | [], here, progress => skipAgain run skippers rounds (here, progress)
  | skipper :: rest, here, progress => do
    let reached ← skipOne run skipper first here progress
    let reached ← skipEach run rounds rest reached.1 reached.2
    skipAgain run skippers rounds reached

variable (run : Matcher) (skippers rest : List Expr) (rounds : Nat) (here : Position)
  (progress : Bool)

theorem skipFrom_self : skipFrom run skippers rounds rounds rest here progress =
    skipEach run rounds rest here progress >>= skipAgain run skippers rounds := by
  cases rest with
  | nil => rfl
  | cons skipper rest => simp only [skipFrom, skipEach, bind_assoc]

theorem skipAll_succ : skipAll run skippers (rounds + 1) here =
    skipFrom run skippers rounds rounds skippers here false := by
  rw [skipFrom_self]
  rfl

end Eval

/-- With these amounts of fuel, a task that starts with some items is evaluated to a fate, unless it
is broken off for want of a text. -/
def Task.Evaluates (env : Env) (items : List Span) (fate : Fate) (fuel rounds first : Nat) :
    Task → Prop
  | .expr body here atomic => ∀ before : State, before.stack.items = items →
    (eval env fuel body here atomic before).HasFate fate
  | .gap forbidden here => ∀ before : State, before.stack.items = items →
    (Eval.gapUnless (eval env fuel) forbidden here before).HasFateBy some fate
  | .items rest here fresh atomic => ∀ (before : State) (start : Position)
      (found : Array (Option Node)), before.stack.items = items → start.Precedes here →
      found.isEmpty = fresh →
    (Eval.items (eval env fuel) atomic start rest here found before).HasFate fate
  | .alternatives rest here atomic => ∀ (before : State) (index : Nat),
      before.stack.items = items →
    (Eval.alternatives (eval env fuel) atomic here index rest before).HasFate fate
  | .loop body min max atomic count here => ∀ (before : State) (start : Position)
      (found : Array (Option Node)), before.stack.items = items → start.Precedes here →
      found.size = count →
    (Eval.repetition env (eval env fuel) body min max atomic start rounds here found before).HasFate
      fate
  | .skip rest here progress => ∀ before : State, before.stack.items = items →
    (Eval.skipFrom (eval env fuel) env.skippers rounds first rest here progress before).HasFateBy
      some fate

theorem precedes_of_gap {env : Env} {fuel : Nat} {forbidden : Bool} {here there : Position}
    {before after : State}
    (ended : Eval.gapUnless (eval env fuel) forbidden here before = .done there after) :
    here.Precedes there := ((Derived.eval env fuel).gap_matched ended).2

/-- In a scope, an action has the fate that it has by itself. -/
theorem Action.hasFateBy_within {α : Type} {body : Action α}
    (simulates : Simulates State.SameCourse body) (scope : Scope) {before : State}
    {stop? : α → Option Position} {fate : Fate} (has : (body before).HasFateBy stop? fate) :
    (within scope body before).HasFateBy stop? fate := by
  have alone : (within scope body before).fateBy stop? = (body before).fateBy stop? :=
    fateBy_within simulates scope
  rcases has with ⟨after, lost⟩ | comes
  · rw [lost] at alone
    exact .inl (Outcome.endless_of_fateBy alone)
  · exact .inr (alone.trans comes)

/-- Ignored text has the fate of skipping everything that is ignored. -/
theorem ignored_fate {env : Env} {fuel : Nat} {here : Position} {before : State} {fate : Fate}
    (skips : (Eval.skipAll (eval env fuel) env.skippers fuel here before).HasFateBy some fate) :
    (eval env (fuel + 1) .ignored here false before).HasFate fate := by
  change (Eval.ignored env (eval env fuel) fuel here false before).HasFate fate
  rw [Eval.ignored, Bool.false_or]
  split
  · next empty =>
    rw [List.isEmpty_iff.mp empty] at skips
    cases fuel with
    | zero =>
      rcases skips with ⟨_, lost⟩ | none
      · cases lost
      · cases none
    | succ fuel =>
      -- Nothing is tried, so that no text can be missing.
      rcases skips with ⟨_, lost⟩ | skips
      · cases lost
      · exact .inr skips
  · have muted := Action.hasFateBy_within (skipAll_sameCourse env fuel here fuel) .muted skips
    cases fate with
    | failed items => exact Action.hasFateBy_bind_failed muted fun _ _ none _ => by cases none
    | broken cause items => exact Action.hasFateBy_bind_broken muted
    | matched stop items =>
      refine Action.hasFateBy_bind_matched muted fun there left _ same kept => ?_
      cases same
      exact .inr (congrArg (some ∘ Fate.matched _) kept)

/-- What is derived is evaluated to, given enough fuel, unless a text is wanting. -/
theorem ComesTo.evaluates {env : Env} {task : Task} {items : List Span} {fate : Fate}
    (comes : ComesTo env task items fate) :
    Amply fun fuel rounds first => task.Evaluates env items fate fuel rounds first := by
  induction comes with
  | @terminal leaf here atomic items fate ended =>
    refine .succ fun fuel _ _ before started => ?_
    subst started
    exact .inr ((attempt_fate here leaf before).trans ended)
  | seq _ ih =>
    exact ih.deeper fun fuel part _ _ before started =>
      part before _ #[] started (.refl _) rfl
  | choice _ ih => exact ih.deeper fun fuel part _ _ before started => part before 0 started
  | opt _ same ih =>
    refine ih.deeper fun fuel part _ _ before started => ?_
    subst started
    exact (part before rfl).change (fate_opt env fuel _ _ _ before) (fun _ _ => rfl) same
  | rep _ ih =>
    exact ih.deeper fun fuel part _ _ before started =>
      part before _ #[] started (.refl _) rfl
  | positive _ same ih =>
    refine ih.deeper fun fuel part _ _ before started => ?_
    subst started
    exact (part before rfl).change (fate_positive env fuel _ _ _ before) (fun _ _ => rfl) same
  | negative _ same ih =>
    refine ih.deeper fun fuel part _ _ before started => ?_
    subst started
    exact (part before rfl).change (fate_negative env fuel _ _ _ before) (fun _ _ => rfl) same
  | restorable _ same ih =>
    refine ih.deeper fun fuel part _ _ before started => ?_
    subst started
    exact (part before rfl).change (fate_restorable env fuel _ _ _ before) (fun _ _ => rfl) same
  | push _ same ih =>
    refine ih.deeper fun fuel part _ _ before started => ?_
    exact (part before started).change (.inr (fate_push env fuel _ _ _ before))
      (fun _ _ => rfl) same
  | rule _ ih =>
    refine ih.deeper fun fuel part _ _ before started => ?_
    refine (part before started).change (.inr ?_ : Outcome.Changes id _ _) (fun _ _ => rfl) rfl
    rw [fate_rule, Option.map_id, id]
  | ref defined _ ih =>
    refine ih.deeper fun fuel part _ _ before started => ?_
    rw [eval_ref defined]
    exact part before started
  | refMissing absent =>
    refine .succ fun fuel _ _ before started => ?_
    exact started ▸ .inr (fate_refMissing _ _ _ _ _ absent)
  | lazy resolved _ ih =>
    refine ih.deeper fun fuel part _ _ before started => ?_
    rw [eval_lazy before resolved]
    exact part (before.remember _) (before.remember_stack _ ▸ started)
  | lazyMissing unresolved =>
    refine .succ fun fuel _ _ before started => ?_
    exact started ▸ .inr (fate_lazyMissing _ _ _ _ _ unresolved)
  | ignoredAtomic =>
    exact .succ fun fuel _ _ before started =>
      .inr (congrArg (some ∘ Fate.matched _) started)
  | @ignored here items fate skipped ih =>
    have skips : Amply fun fuel rounds _ => ∀ before : State, before.stack.items = items →
        (Eval.skipAll (eval env fuel) env.skippers rounds here before).HasFateBy some fate :=
      ih.round fun fuel rounds _ _ part before started => by
        rw [Eval.skipAll_succ]
        exact part before started
    refine skips.deeper fun fuel part _ _ before started => ?_
    exact ignored_fate (part before started)
  | pairFirst _ stopped ih =>
    refine ih.deeper fun fuel part _ _ before started => ?_
    exact Action.hasFateBy_bind_stopped (part before started) stopped fun _ => rfl
  | @pair body here middle atomic items between fate _ _ early late =>
    refine (early.and late).deeper fun fuel parts _ _ before started => ?_
    refine Action.hasFateBy_bind_found (parts.1 before started) fun first left ran there same => ?_
    subst there
    have second := parts.2 left same
    cases fate with
    | failed | broken => exact Action.hasFateBy_bind_stopped second rfl fun _ => rfl
    | matched stop after =>
      refine Action.hasFateBy_bind_found second fun other last also there same => ?_
      subst there same
      exact .inr (Clause.answer_fate ((precedes_of_eval _ _ _ _ _ ran).trans
        (precedes_of_eval _ _ _ _ _ also)) _ last)
  | abstract =>
    exact .succ fun fuel _ _ before started =>
      .inr (congrArg (some ∘ Fate.broken _) started)
  | gapNone =>
    exact .always fun fuel _ _ before started =>
      .inr (congrArg (some ∘ Fate.matched _) started)
  | @gap here items fate comes ih =>
    refine ih.mono fun fuel _ _ part before started => ?_
    cases fate with
    | failed after => exact comes.not_failed_of_ignored.elim
    | broken cause after => exact Action.hasFateBy_bind_broken (part before started)
    | matched stop after =>
      refine Action.hasFateBy_bind_found (part before started) fun found left _ there same => ?_
      subst there same
      exact .inr rfl
  | itemsEnd =>
    exact .always fun fuel _ _ before start found started ordered _ =>
      .inr ((Clause.answer_fate ordered _ before).trans (congrArg (some ∘ Fate.matched _) started))
  | itemsGap _ stopped gap =>
    refine gap.mono fun fuel _ _ gap before start found started ordered fresh => ?_
    subst fresh
    exact Action.hasFateBy_bind_place (gap before started) stopped
  | itemsStop _ _ stopped gap part =>
    refine (gap.and part).mono fun fuel _ _ parts before start found started ordered fresh => ?_
    subst fresh
    refine Action.hasFateBy_bind_matched (parts.1 before started) fun there left _ same kept => ?_
    cases same
    exact Action.hasFateBy_bind_stopped (parts.2 left kept) stopped fun _ => rfl
  | itemsMore _ _ _ gap part others =>
    refine ((gap.and part).and others).mono
      fun fuel _ _ parts before start found started ordered fresh => ?_
    subst fresh
    obtain ⟨⟨gap, part⟩, others⟩ := parts
    refine Action.hasFateBy_bind_matched (gap before started) fun there left skipped same kept => ?_
    cases same
    refine Action.hasFateBy_bind_found (part left kept) fun item last ran stop same => ?_
    subst stop
    have onward := (ordered.trans (precedes_of_gap skipped)).trans (precedes_of_eval _ _ _ _ _ ran)
    exact others last start (found.push item.node) same onward (by simp)
  | alternativesEnd =>
    exact .always fun fuel _ _ before _ started =>
      .inr (congrArg (some ∘ Fate.failed) started)
  | @alternativesFound expr rest here atomic items fate _ found ih =>
    refine ih.mono fun fuel _ _ part before index started => ?_
    cases fate with
    | failed after => cases found
    | broken cause after => exact Action.hasFateBy_bind_broken (part before started)
    | matched stop after =>
      refine Action.hasFateBy_bind_found (part before started) fun match' left ran there same => ?_
      subst there same
      exact .inr (Clause.answer_fate (precedes_of_eval _ _ _ _ _ ran) _ left)
  | alternativesMore _ _ part others =>
    refine (part.and others).mono fun fuel _ _ parts before index started => ?_
    refine Action.hasFateBy_bind_failed (parts.1 before started) fun result left none same => ?_
    rw [Option.map_eq_none_iff.mp none]
    exact parts.2 left (index + 1) same
  | loopFull full same =>
    refine (Amply.always fun _ _ _ => trivial).round
      fun fuel rounds _ _ _ before start found started ordered count => ?_
    subst count
    rw [Eval.repetition, if_pos full]
    exact .inr (by rw [← same, ← started]; exact Clause.rep_fate ordered _ found before)
  | loopGap room _ stopped gap =>
    refine gap.round fun fuel rounds _ gap _ before start found started ordered count => ?_
    subst count
    rw [Eval.repetition, if_neg (Bool.eq_false_iff.mp room)]
    exact Action.hasFateBy_bind_place (gap before started) stopped
  | loopBroken room _ _ gap part =>
    refine (gap.and part).round
      fun fuel rounds _ parts _ before start found started ordered count => ?_
    subst count
    rw [Eval.repetition, if_neg (Bool.eq_false_iff.mp room)]
    refine Action.hasFateBy_bind_matched (parts.1 before started) fun there left _ same kept => ?_
    cases same
    exact Action.hasFateBy_bind_broken (parts.2 left kept)
  | loopEnd room _ _ ends gap part =>
    refine (gap.and part).round
      fun fuel rounds _ parts _ before start found started ordered count => ?_
    subst count
    rw [Eval.repetition, if_neg (Bool.eq_false_iff.mp room)]
    refine Action.hasFateBy_bind_matched (parts.1 before started)
      fun there left skipped same kept => ?_
    cases same
    refine Action.hasFateBy_bind_failed (parts.2 left kept) fun result last none same => ?_
    rw [Option.map_eq_none_iff.mp none]
    refine .inr ((Clause.rep_fate (ordered.trans (precedes_of_gap skipped)) _ found last).trans ?_)
    rw [same, ends]
  | loopLimit room _ _ beyond gap part =>
    refine (gap.and part).round
      fun fuel rounds _ parts _ before start found started ordered count => ?_
    subst count
    rw [Eval.repetition, if_neg (Bool.eq_false_iff.mp room)]
    refine Action.hasFateBy_bind_matched (parts.1 before started) fun there left _ same kept => ?_
    cases same
    refine Action.hasFateBy_bind_found (parts.2 left kept) fun item last _ _ same => ?_
    simp only [Array.size_push, beyond]
    exact .inr (congrArg (some ∘ Fate.failed) same)
  | loopMore room _ _ within _ gap part others =>
    refine ((gap.and part).and others).round
      fun fuel rounds _ parts _ before start found started ordered count => ?_
    subst count
    obtain ⟨⟨gap, part⟩, others⟩ := parts
    rw [Eval.repetition, if_neg (Bool.eq_false_iff.mp room)]
    refine Action.hasFateBy_bind_matched (gap before started) fun there left skipped same kept => ?_
    cases same
    refine Action.hasFateBy_bind_found (part left kept) fun item last ran stop same => ?_
    subst stop
    have onward := (ordered.trans (precedes_of_gap skipped)).trans (precedes_of_eval _ _ _ _ _ ran)
    simp only [Array.size_push, within]
    exact others last start (found.push item.node) same onward (Array.size_push _)
  | skipEnd =>
    exact .always fun fuel _ _ before started =>
      .inr (congrArg (some ∘ Fate.matched _) started)
  | skipAgain _ ih =>
    refine ih.round fun fuel rounds _ _ part before started => ?_
    rw [Eval.skipFrom, Eval.skipAgain, if_pos rfl, Eval.skipAll_succ]
    exact part before started
  | @skipBroken skipper rest here progress items after cause _ part =>
    refine part.again fun fuel rounds first part _ before started => ?_
    have one : (Eval.skipOne (eval env fuel) skipper (first + 1) here progress before).HasFateBy
        (fun reached => some reached.1) (.broken cause after) :=
      Action.hasFateBy_bind_broken (part before started)
    exact Action.hasFateBy_bind_broken one
  | skipNone _ _ part others =>
    refine (part.and others).again fun fuel rounds first parts again before started => ?_
    rw [Eval.skipFrom, Eval.skipOne, bind_assoc]
    refine Action.hasFateBy_bind_failed (parts.1 before started) fun result left none same => ?_
    rw [Option.map_eq_none_iff.mp none, pure_bind, ← Eval.skipFrom_self]
    exact again.2 left same
  | skipStay _ stays _ part others =>
    refine (part.and others).again fun fuel rounds first parts again before started => ?_
    rw [Eval.skipFrom, Eval.skipOne, bind_assoc]
    refine Action.hasFateBy_bind_found (parts.1 before started) fun found left _ there same => ?_
    subst there
    simp only [stays, if_true, pure_bind]
    rw [← Eval.skipFrom_self]
    exact again.2 left same
  | skipMore _ moves _ part others =>
    refine (part.and others).again fun fuel rounds first parts _ before started => ?_
    rw [Eval.skipFrom, Eval.skipOne, bind_assoc]
    refine Action.hasFateBy_bind_found (parts.1 before started) fun found left _ there same => ?_
    subst there
    simp only [moves, Bool.false_eq_true, if_false]
    exact parts.2 left same

/-- What an expression comes to, it is evaluated to, given enough fuel, unless a text is wanting. -/
theorem ComesTo.exists_eval {env : Env} {expr : Expr} {here : Position} {atomic : Bool}
    {fate : Fate} {before : State}
    (comes : ComesTo env (.expr expr here atomic) before.stack.items fate) :
    ∃ fuel, (eval env fuel expr here atomic before).HasFate fate := by
  obtain ⟨bound, reached⟩ := comes.evaluates
  exact ⟨bound,
    reached bound bound bound (Nat.le_refl _) (Nat.le_refl _) (Nat.le_refl _) before rfl⟩

end Peg
