import Peg.Proofs.Eval.Transactions

/-!
# Contracts of actions

A contract says what an action keeps and what it may be broken off by: a condition on the items of
the stack, which holds again afterwards however the action ends, and a condition on faults. Besides
it may promise that the action ends at all. To fulfil a contract with an answer is to keep all that
and to answer only what satisfies a further condition.

The items are all of the state that a contract speaks of, so that work on the tracker and on the
trace never matters to it. A transaction keeps what its body keeps: either the items are those that
the body leaves, or those from before.
-/
namespace Peg

/-- What is asked of an action beside its answer. -/
structure Contract where
  /-- The action ends. -/
  total : Prop
  /-- What holds of the items of the stack, before and afterwards. -/
  items : List Span → Prop
  /-- The faults by which the action may be broken off. -/
  allows : Fault → Prop

/-- The end is one that the contract admits, and the answer satisfies a condition. -/
def Outcome.Satisfies {α : Type} (contract : Contract) (holds : α → Prop) : Outcome α → Prop
  | .done value after => contract.items after.stack.items ∧ holds value
  | .fault cause after => contract.items after.stack.items ∧ contract.allows cause
  | .exhausted => ¬contract.total

theorem Outcome.Satisfies.weaken {α : Type} {contract : Contract} {holds weaker : α → Prop}
    {outcome : Outcome α} (satisfies : outcome.Satisfies contract holds)
    (weaken : ∀ value after, outcome = .done value after → holds value → weaker value) :
    outcome.Satisfies contract weaker := by
  cases outcome with
  | done value after => exact ⟨satisfies.1, weaken value after rfl satisfies.2⟩
  | fault cause after => exact satisfies
  | exhausted => exact satisfies

/-- From items that the contract admits, the action comes to an end that it admits. -/
def Action.Fulfils {α : Type} (contract : Contract) (action : Action α) (holds : α → Prop) : Prop :=
  ∀ before, contract.items before.stack.items → (action before).Satisfies contract holds

namespace Action.Fulfils

variable {α β : Type} {contract : Contract} {holds : α → Prop} {later : β → Prop}

theorem mono {weaker : α → Prop} {action : Action α} (fulfils : Fulfils contract action holds)
    (weaken : ∀ value, holds value → weaker value) : Fulfils contract action weaker :=
  fun before kept => (fulfils before kept).weaken fun value _ _ => weaken value

/-- What is answered is answered in some state, too. -/
theorem answered {action : Action α} (fulfils : Fulfils contract action holds) :
    Fulfils contract action fun value =>
      holds value ∧ ∃ before after, action before = .done value after :=
  fun before kept => (fulfils before kept).weaken fun _ after ended satisfied =>
    ⟨satisfied, before, after, ended⟩

theorem pure {value : α} (satisfied : holds value) : Fulfils contract (Pure.pure value) holds :=
  fun _ kept => ⟨kept, satisfied⟩

theorem bind {first : Action α} {next : α → Action β} (early : Fulfils contract first holds)
    (late : ∀ value, holds value → Fulfils contract (next value) later) :
    Fulfils contract (first >>= next) later := by
  intro before kept
  have began := early before kept
  cases outcome : first before with
  | done value middle =>
    rw [outcome] at began
    rw [Action.bind_of_done outcome]
    -- The second action starts from items that the first one has kept.
    exact late value began.2 middle began.1
  | fault cause after =>
    rw [outcome] at began
    rw [Action.bind_of_fault outcome]
    exact began
  | exhausted =>
    rw [outcome] at began
    rw [Action.bind_of_exhausted outcome]
    exact began

theorem exhausted (endless : ¬contract.total) :
    Fulfils contract (Action.exhausted : Action α) holds := fun _ _ => endless

theorem fail {cause : Fault} (allowed : contract.allows cause) :
    Fulfils contract (Action.fail cause : Action α) holds := fun _ kept => ⟨kept, allowed⟩

theorem gets (read : State → α) : Fulfils contract (Action.gets read) fun _ => True :=
  fun _ kept => ⟨kept, trivial⟩

theorem modify {change : State → State}
    (keeps : ∀ state, contract.items state.stack.items →
      contract.items (change state).stack.items) :
    Fulfils contract (Action.modify change) fun _ => True :=
  fun before kept => ⟨keeps before kept, trivial⟩

theorem track (change : Tracker → Tracker) :
    Fulfils contract (Action.track change) fun _ => True := modify fun _ kept => kept

theorem textOf (env : Env) (expr : Expr) (allowed : contract.allows .endlessText) :
    Fulfils contract (Action.textOf env expr) fun _ => True := by
  refine bind (gets _) fun text _ => ?_
  cases text with
  | some text => exact pure trivial
  | none => exact fail allowed

theorem emit (env : Env) (event : TraceEvent) :
    Fulfils contract (Action.emit env event) fun _ => True := by
  unfold Action.emit
  split
  · exact modify fun _ kept => kept
  · exact pure trivial

theorem ofExcept {ε : Type} {fault : ε → Fault} {result : Except ε α}
    (allowed : ∀ error, result = .error error → contract.allows (fault error)) :
    Fulfils contract (Action.ofExcept fault result) fun value => result = .ok value := by
  cases result with
  | ok value => exact pure rfl
  | error error => exact fail (allowed error rfl)

theorem force (env : Env) (cell : LazyCell)
    (allowed : ∀ error, contract.allows (.build error)) :
    Fulfils contract (Action.force env cell) fun target =>
      env.definitions.resolve cell = .ok target := by
  refine bind (ofExcept fun error _ => allowed error) fun target resolved => ?_
  -- Only what is remembered of lazy expressions changes.
  refine bind (modify fun state kept => ?_) fun _ _ => pure resolved
  split
  · exact kept
  · exact kept

theorem lookupRule (env : Env) (name : String)
    (allowed : contract.allows (.undefinedRule name)) :
    Fulfils contract (Action.lookupRule env name) fun target =>
      env.rules.lookup name = some target := by
  unfold Action.lookupRule
  split
  next target defined => exact pure defined
  · exact fail allowed

theorem within (scope : Scope) {body : Action α} (inner : Fulfils contract body holds) :
    Fulfils contract (Action.within scope body) holds := by
  intro before kept
  have ended := inner { before with tracker := before.tracker.enter scope } kept
  unfold Action.within
  cases outcome : body { before with tracker := before.tracker.enter scope } with
  | done value after | fault cause after | exhausted =>
    rw [outcome] at ended
    exact ended

theorem withinAny (scope? : Option Scope) {body : Action α} (inner : Fulfils contract body holds) :
    Fulfils contract (Action.withinAny scope? body) holds := by
  cases scope? with
  | none => exact inner
  | some scope => exact inner.within scope

/-- A transaction fulfils what its body does, if that closes the snapshots that it opens. -/
theorem transaction (keep : Option Match → Bool) {body : Action (Option Match)}
    {holds : Option Match → Prop} (balanced : Balanced body)
    (inner : Fulfils contract body holds) :
    Fulfils contract (Action.transaction keep body) holds := by
  intro before kept
  have ended := inner before.opened kept
  unfold Action.transaction
  rw [Action.bind_of_done (Action.snapshot_eq before)]
  cases outcome : body before.opened with
  | done result left =>
    rw [outcome] at ended
    obtain ⟨settled, settles, _, committed, restored⟩ :=
      Action.settle_of_grows keep result (balanced.grows outcome)
    rw [Action.bind_of_done outcome, Action.bind_of_done settles]
    refine ⟨?_, ended.2⟩
    -- The items are those that the body has left, or those from before.
    change contract.items settled.items
    cases choice : keep result with
    | true =>
      rw [committed choice]
      exact ended.1
    | false =>
      rw [restored choice]
      exact kept
  | fault cause left =>
    rw [outcome] at ended
    rw [Action.bind_of_fault outcome]
    exact ended
  | exhausted =>
    rw [outcome] at ended
    rw [Action.bind_of_exhausted outcome]
    exact ended

end Action.Fulfils

end Peg
