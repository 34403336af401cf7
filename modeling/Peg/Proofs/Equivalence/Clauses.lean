import Peg.Proofs.Equivalence.Fates
import Peg.Proofs.Coupling.Evaluation
import Peg.Proofs.Eval.Transactions
import Peg.Proofs.Machine.Indifference
import Peg.Proofs.Tree.Building

/-!
# Fates of what expressions are made of

The fate of a terminal depends on the items of the stack alone, and that of an action on the stack
and on what was looked up, since trackers and the trace are never looked at. Snapshots are never
noticed. So a part has the fate in a scope, or under a snapshot, that it has by itself, and what a
clause makes of it can be told from that fate. The exception is a lookahead whose body has no text:
it is broken off where it would fail.
-/
namespace Peg

/-- States with the same items on their stacks. -/
def State.SameItems (left right : State) : Prop := left.stack.items = right.stack.items

/-- States with the same stack in which the same was looked up. -/
def State.SameCourse : State → State → Prop := State.SameStack (fun _ _ => True) (LookedUp False)

theorem State.SameCourse.of_eq {left right : State} (stack : left.stack = right.stack)
    (forced : left.forced = right.forced) : left.SameCourse right :=
  ⟨stack, trivial, forced ▸ .refl _⟩

theorem State.SameCourse.items {left right : State} (same : left.SameCourse right) :
    left.SameItems right := congrArg Stack.items same.stack

/-- An outcome comes to what is made of the fate of another one, unless it is broken off because an
expression has no text. -/
def Outcome.Changes (change : Fate → Fate) (inner outer : Outcome (Option Match)) : Prop :=
  outer.Endless ∨ outer.fate? = inner.fate?.map change

namespace Action

variable {α β : Type} {before : State} {stop? : α → Option Position}

/-- What neither notices snapshots nor looks at trackers and at what was looked up depends on the
items alone. -/
theorem sameItems {action : Action α} (balanced : Balanced action)
    (blurred : Simulates (State.SameStack (fun _ _ => True) fun _ _ => True) action) :
    Simulates State.SameItems action := by
  intro left right same
  -- In between stands a state with the stack of the one and all else of the other.
  have alike : left.Alike { left with stack := right.stack } := ⟨same, rfl, rfl, rfl⟩
  have first := balanced.blind alike
  have second := blurred { left with stack := right.stack } right ⟨rfl, trivial, trivial⟩
  generalize action left = outcome at first ⊢
  generalize action { left with stack := right.stack } = middle at first second
  generalize action right = other at second ⊢
  cases first with
  | done value early =>
    cases second with
    | done _ late =>
      exact .done value (early.items.trans (congrArg Stack.items late.stack))
  | fault cause early =>
    cases second with
    | fault _ late => exact .fault cause (early.items.trans (congrArg Stack.items late.stack))
  | exhausted =>
    cases second with
    | exhausted => exact .exhausted

theorem Simulates.fateBy_eq {related : State → State → Prop} {action : Action α}
    (simulates : Simulates related action)
    (kept : ∀ {left right : State}, related left right → left.SameItems right) {left right : State}
    (states : related left right) : (action left).fateBy stop? = (action right).fateBy stop? := by
  have alike := simulates left right states
  generalize action left = outcome at alike ⊢
  generalize action right = other at alike ⊢
  cases alike with
  | done value after => simp only [Outcome.fateBy, show _ = _ from kept after]
  | fault cause after => simp only [Outcome.fateBy, show _ = _ from kept after]
  | exhausted => rfl

/-- In a scope, an action has the fate that it has by itself. -/
theorem fateBy_within {body : Action α} (simulates : Simulates State.SameCourse body)
    (scope : Scope) : (within scope body before).fateBy stop? = (body before).fateBy stop? := by
  have inside : (within scope body before).fateBy stop? =
      (body { before with tracker := before.tracker.enter scope }).fateBy stop? := by
    unfold within
    cases body { before with tracker := before.tracker.enter scope } <;> rfl
  exact inside.trans (simulates.fateBy_eq State.SameCourse.items (.of_eq rfl rfl))

/-- What comes first is broken off, or the fate is that of what comes next. -/
theorem fateBy_bind {first : Action α} {next : α → Action β} {stop? : β → Option Position}
    {fate : Fate} (ended : ((first >>= next) before).fateBy stop? = some fate) :
    (∃ cause after, first before = .fault cause after ∧
        fate = .broken cause after.stack.items) ∨
      ∃ value middle, first before = .done value middle ∧
        (next value middle).fateBy stop? = some fate := by
  cases began : first before with
  | done value middle =>
    rw [bind_of_done began] at ended
    exact .inr ⟨value, middle, rfl, ended⟩
  | fault cause after =>
    rw [bind_of_fault began] at ended
    exact .inl ⟨cause, after, rfl, (Option.some.inj ended).symm⟩
  | exhausted =>
    rw [bind_of_exhausted began] at ended
    cases ended

end Action

/-! ### Nodes -/

section Nodes

variable {start stop : Position} {before : State}

/-- A node over a match that is in order can always be made. -/
theorem Clause.answer_done (ordered : start.Precedes stop) (node : Span → Option Node)
    (before : State) : ∃ span, (Action.span start stop >>= fun span =>
      pure (some (⟨stop, node span⟩ : Match))) before = .done (some ⟨stop, node span⟩) before := by
  obtain ⟨span, made, _⟩ := Span.spanTo_eq_ok ordered
  refine ⟨span, ?_⟩
  simp only [Action.span, made, Action.ofExcept, pure_bind]
  rfl

theorem Clause.answer_fate (ordered : start.Precedes stop) (node : Span → Option Node)
    (before : State) : ((Action.span start stop >>= fun span =>
      pure (some (⟨stop, node span⟩ : Match))) before).fate? =
        some (.matched stop before.stack.items) := by
  obtain ⟨span, made⟩ := answer_done ordered node before
  rw [made]
  rfl

theorem Clause.rep_fate (ordered : start.Precedes stop) (min : Nat) (found : Array (Option Node))
    (before : State) : (rep min start stop found before).fate? =
      some (.repeated min found.size stop before.stack.items) := by
  unfold rep Fate.repeated
  split
  · rfl
  · exact answer_fate ordered _ before

end Nodes

/-! ### Transactions -/

section Transactions

variable {body : Action (Option Match)} {before : State} (keep : Option Match → Bool)

/-- What a transaction comes to, given what its body comes to by itself. -/
theorem Balanced.transaction_done (balanced : Balanced body) {result : Option Match} {left : State}
    (ended : body before = .done result left) :
    ∃ after, Action.transaction keep body before = .done result after ∧
      after.stack.items = if keep result then left.stack.items else before.stack.items := by
  have alike := balanced.blind before.opened_alike
  rw [ended] at alike
  generalize met : body before.opened = outcome at alike
  cases alike with
  | @done _ _ inner same =>
    obtain ⟨settled, settles, _, kept, dropped⟩ :=
      Action.settle_of_grows keep result (balanced.grows met)
    refine ⟨{ inner with stack := settled }, ?_, ?_⟩
    · rw [Action.transaction, Action.bind_of_done (Action.snapshot_eq before),
        Action.bind_of_done met, Action.bind_of_done settles]
      rfl
    · cases choice : keep result with
      | true => exact (kept choice).trans same.items.symm
      | false => exact congrArg Stack.items (dropped choice)

theorem Balanced.transaction_fault (balanced : Balanced body) {cause : Fault} {left : State}
    (ended : body before = .fault cause left) :
    ∃ after, Action.transaction keep body before = .fault cause after ∧
      after.stack.items = left.stack.items := by
  have alike := balanced.blind before.opened_alike
  rw [ended] at alike
  generalize met : body before.opened = outcome at alike
  cases alike with
  | @fault _ _ inner same =>
    refine ⟨inner, ?_, same.items.symm⟩
    rw [Action.transaction, Action.bind_of_done (Action.snapshot_eq before),
      Action.bind_of_fault met]

theorem Balanced.transaction_exhausted (balanced : Balanced body)
    (endless : body before = .exhausted) : Action.transaction keep body before = .exhausted := by
  have alike := balanced.blind before.opened_alike
  rw [endless] at alike
  generalize met : body before.opened = outcome at alike
  cases alike with
  | exhausted =>
    rw [Action.transaction, Action.bind_of_done (Action.snapshot_eq before),
      Action.bind_of_exhausted met]

/-- The fate of what is made of a transaction, told from the fate of its body by itself. -/
theorem Balanced.transaction_changes (balanced : Balanced body)
    {node : Option Match → Action (Option Match)} {change : Fate → Fate}
    (broken : ∀ cause items, change (.broken cause items) = .broken cause items)
    (onward : ∀ result left after, body before = .done result left →
      after.stack.items = (if keep result then left.stack.items else before.stack.items) →
        (Outcome.done result left).Changes change (node result after)) :
    (body before).Changes change ((Action.transaction keep body >>= node) before) := by
  cases ended : body before with
  | done result left =>
    obtain ⟨after, settled, items⟩ := balanced.transaction_done keep ended
    rw [Action.bind_of_done settled]
    exact onward result left after ended items
  | fault cause left =>
    obtain ⟨after, settled, items⟩ := balanced.transaction_fault keep ended
    rw [Action.bind_of_fault settled]
    right
    simp only [Outcome.fate?, Outcome.fateBy, Option.map_some, broken, items]
  | exhausted =>
    rw [Action.bind_of_exhausted (balanced.transaction_exhausted keep ended)]
    exact .inr rfl

end Transactions

theorem Action.withinAny_eq_done {α : Type} {scope? : Option Scope} {body : Action α} {value : α}
    {before after : State} (ended : Action.withinAny scope? body before = .done value after) :
    ∃ inner left, body inner = .done value left := by
  rw [Action.withinAny_apply] at ended
  split at ended
  · next ran => cases ended; exact ⟨_, _, ran⟩
  · cases ended
  · cases ended

/-- The fate of an action that goes on with the result of another one. -/
theorem Action.fate_bind_map {first : Action (Option Match)}
    {next : Option Match → Action (Option Match)} {before : State} {change : Fate → Fate}
    (broken : ∀ cause items, change (.broken cause items) = .broken cause items)
    (onward : ∀ result middle, first before = .done result middle →
      (next result middle).fate? = (Outcome.done result middle).fate?.map change) :
    ((first >>= next) before).fate? = (first before).fate?.map change := by
  cases began : first before with
  | done result middle =>
    rw [bind_of_done began]
    exact onward result middle began
  | fault cause after =>
    rw [bind_of_fault began]
    exact congrArg some (broken _ _).symm
  | exhausted =>
    rw [bind_of_exhausted began]
    rfl

/-! ### Expressions -/

section Expressions

variable (env : Env) (fuel : Nat) (body : Expr) (here : Position) (atomic : Bool)

theorem eval_sameCourse (expr : Expr) :
    Action.Simulates State.SameCourse (eval env fuel expr here atomic) :=
  Action.simulatesUnless_false.mp ((Tracker.anything.stepwise env).eval fuel expr here atomic)

theorem attempt_sameItems (leaf : Terminal) :
    Action.Simulates State.SameItems (leaf.attempt here) :=
  Action.sameItems (Balanced.eval { input := here.input } 1 (.terminal leaf) here false)
    (Tracker.anything.primitive.attempt leaf here)

theorem attempt_fate (leaf : Terminal) (before : State) :
    (leaf.attempt here before).fate? = (leaf.attempt here (.ofItems before.stack.items)).fate? :=
  have same : before.SameItems (.ofItems before.stack.items) := rfl
  (attempt_sameItems here leaf).fateBy_eq id same

theorem skipAll_sameCourse (rounds : Nat) :
    Action.Simulates State.SameCourse
      (Eval.skipAll (eval env fuel) env.skippers rounds here) :=
  have stepwise : Machine.Stepwise env (Action.SimulatesUnless False State.SameCourse) :=
    Tracker.anything.stepwise env
  Action.simulatesUnless_false.mp (stepwise.skipAll (stepwise.eval fuel) env.skippers rounds here)

theorem precedes_of_eval {before after : State} {found : Match}
    (ended : eval env fuel body here atomic before = .done (some found) after) :
    here.Precedes found.stop := (Builds.of_eval ended found rfl).precedes

variable (before : State)

theorem fate_restorable : (eval env fuel body here atomic before).Changes
    (Fate.restored before.stack.items)
    (eval env (fuel + 1) (.restorable body) here atomic before) := by
  rw [eval_restorable, ← bind_pure (Action.transaction _ _)]
  refine (Balanced.eval env fuel body here atomic).transaction_changes _ (fun _ _ => rfl) ?_
  intro result left after _ items
  cases result <;> exact .inr (congrArg some (congrArg _ items))

theorem fate_opt : (eval env fuel body here atomic before).Changes
    (Fate.optional here before.stack.items)
    (eval env (fuel + 1) (.opt body) here atomic before) := by
  rw [eval_opt]
  refine (Balanced.eval env fuel body here atomic).transaction_changes _ (fun _ _ => rfl) ?_
  intro result left after ended items
  right
  cases result with
  | none => exact (Clause.answer_fate (.refl here) _ after).trans (congrArg some (congrArg _ items))
  | some found =>
    have ordered := precedes_of_eval env fuel body here atomic ended
    exact (Clause.answer_fate ordered _ after).trans (congrArg some (congrArg _ items))

/-- A lookahead fails, or its body has no text. -/
theorem failedPredicate_fate (positive : Bool) :
    let outcome := (Action.textOf env body >>= fun label =>
      Action.track (·.recordPredicate positive label here.offset) >>= fun _ =>
        pure (none : Option Match)) before
    outcome.Endless ∨ outcome.fate? = some (.failed before.stack.items) := by
  intro outcome
  cases shown : body.text env.definitions before.forced with
  | none => exact .inl (Action.bind_endless ⟨before, Action.textOf_of_none shown⟩)
  | some label =>
    refine .inr ?_
    simp only [outcome, Action.bind_of_done (Action.textOf_of_some shown)]
    rfl

theorem fate_positive : (eval env fuel body here atomic before).Changes
    (Fate.positive here before.stack.items)
    (eval env (fuel + 1) (.positive body) here atomic before) := by
  have balanced := Balanced.eval env fuel body here atomic
  have alone : (Action.within (.lookahead .positive) (eval env fuel body here atomic)
      before).fateBy (·.map Match.stop) = _ :=
    Action.fateBy_within (eval_sameCourse env fuel here atomic body) (.lookahead .positive)
  rw [eval_positive, Outcome.Changes, Outcome.fate?, ← alone]
  refine (balanced.within (.lookahead .positive)).transaction_changes _ (fun _ _ => rfl) ?_
  intro result left after _ items
  cases result with
  | none =>
    refine (failedPredicate_fate env body here after true).imp id fun failed => ?_
    exact failed.trans (congrArg some (congrArg Fate.failed items))
  | some found =>
    right
    exact (Clause.answer_fate (.refl here) _ after).trans (congrArg some (congrArg _ items))

theorem fate_negative : (eval env fuel body here atomic before).Changes
    (Fate.negative here before.stack.items)
    (eval env (fuel + 1) (.negative body) here atomic before) := by
  have balanced := Balanced.eval env fuel body here atomic
  have alone : (Action.within (.lookahead .negative) (eval env fuel body here atomic)
      before).fateBy (·.map Match.stop) = _ :=
    Action.fateBy_within (eval_sameCourse env fuel here atomic body) (.lookahead .negative)
  rw [eval_negative, Outcome.Changes, Outcome.fate?, ← alone]
  refine (balanced.within (.lookahead .negative)).transaction_changes _ (fun _ _ => rfl) ?_
  intro result left after _ items
  cases result with
  | none =>
    right
    exact (Clause.answer_fate (.refl here) _ after).trans (congrArg some (congrArg _ items))
  | some found =>
    refine (failedPredicate_fate env body here after false).imp id fun failed => ?_
    exact failed.trans (congrArg some (congrArg Fate.failed items))

theorem fate_push : (eval env (fuel + 1) (.push body) here atomic before).fate? =
    (eval env fuel body here atomic before).fate?.map (Fate.pushed here) := by
  refine Action.fate_bind_map (fun _ _ => rfl) fun result middle ended => ?_
  cases result with
  | none => rfl
  | some found =>
    obtain ⟨span, made, _⟩ := Span.spanTo_eq_ok (precedes_of_eval env fuel body here atomic ended)
    have items : (middle.stack.push span).items = span :: middle.stack.items := by
      simp [Stack.push]
    have fate : (Clause.push here (some found) middle).fate? =
        some (.matched found.stop (middle.stack.push span).items) := by
      simp only [Clause.push, Action.span, made, Action.ofExcept, pure_bind]
      rfl
    rw [fate, items]
    simp only [Outcome.fate?, Outcome.fateBy, Option.map_some, Fate.pushed, made]

/-- What is told of does not matter to what comes next. -/
theorem Action.fate_emit (event : TraceEvent) {next : Action (Option Match)} {fate : Option Fate}
    (onward : ∀ after : State, after.SameCourse before → (next after).fate? = fate) :
    ((Action.emit env event >>= fun _ => next) before).fate? = fate := by
  unfold Action.emit
  split <;> exact onward _ (.of_eq rfl rfl)

theorem Clause.rule_fate (name : String) (kind : RuleKind) {result : Option Match} {middle : State}
    (ordered : ∀ found, result = some found → here.Precedes found.stop) :
    (Clause.rule env name kind here result middle).fate? =
      (Outcome.done result middle).fate? := by
  cases result with
  | none =>
    exact Action.fate_emit env middle _ fun after same => congrArg (some ∘ Fate.failed) same.items
  | some found =>
    obtain ⟨span, _, made⟩ := Clause.rule_some env (ordered found rfl)
    rw [made]
    exact Action.fate_emit env middle _ fun after same =>
      congrArg (some ∘ Fate.matched found.stop) same.items

theorem fate_rule (tag : Nat) (name : String) (kind : RuleKind) :
    (eval env (fuel + 1) (.rule tag name kind body) here atomic before).fate? =
      (eval env fuel body here (kind.bodyAtomic atomic) before).fate? := by
  have same := eval_sameCourse env fuel here (kind.bodyAtomic atomic) body
  have enclosed (middle : State) : (Action.withinAny (Clause.ruleScope name kind)
      (eval env fuel body here (kind.bodyAtomic atomic)) middle).fate? =
        (eval env fuel body here (kind.bodyAtomic atomic) middle).fate? := by
    unfold Clause.ruleScope
    split
    · rfl
    · exact Action.fateBy_within same _
  refine Action.fate_emit env before _ fun after course => ?_
  refine (Action.fate_bind_map (fun _ _ => rfl) fun result middle ended => ?_).trans
    ((congrArg (Option.map id) (enclosed after)).trans ?_)
  · rw [Option.map_id]
    refine Clause.rule_fate env here name kind fun found same => ?_
    obtain ⟨inner, left, ran⟩ := Action.withinAny_eq_done ended
    exact precedes_of_eval env fuel body here _ (same ▸ ran)
  · rw [Option.map_id]
    exact same.fateBy_eq State.SameCourse.items course

theorem fate_ref {name : String} {target : Expr} (defined : env.rules.lookup name = some target) :
    (eval env (fuel + 1) (.ref name) here atomic before).fate? =
      (eval env fuel target here atomic before).fate? := by
  rw [eval_ref defined]

theorem fate_refMissing {name : String} (absent : env.rules.lookup name = none) :
    (eval env (fuel + 1) (.ref name) here atomic before).fate? =
      some (.broken (.undefinedRule name) before.stack.items) := by
  simp only [eval, Action.lookupRule, absent]
  rfl

theorem fate_lazy {cell : LazyCell} {target : Expr}
    (resolved : env.definitions.resolve cell = .ok target) :
    (eval env (fuel + 1) (.lazy cell) here atomic before).fate? =
      (eval env fuel target here atomic (before.remember cell)).fate? := by
  rw [eval_lazy before resolved]

theorem fate_lazyMissing {cell : LazyCell} {error : BuildError}
    (unresolved : env.definitions.resolve cell = .error error) :
    (eval env (fuel + 1) (.lazy cell) here atomic before).fate? =
      some (.broken (.build error) before.stack.items) := by
  simp only [eval, Action.force, unresolved]
  rfl

end Expressions

end Peg
