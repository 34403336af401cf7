import Peg.Proofs.Eval.Hereditary
import Peg.Proofs.Machine.Agreement
import Peg.Proofs.Stack.Undo

/-!
# Transactions of the backreference stack

Lookaheads take back what their bodies do to the stack, whether they match or not. Optional parts
and restorable parts take it back if their bodies fail, and keep it if they succeed.

Two facts about every expression carry this. First, matching is balanced: it closes every snapshot
that it opens, and while one is open the log leads back to the items before. Second, matching is
blind to the log: from two stacks with the same items it goes the same way, so that a body does
under a snapshot what it would do by itself.
-/
namespace Peg

/-- States that differ at most in how their stacks would be restored. -/
structure State.Alike (left right : State) : Prop where
  items : left.stack.items = right.stack.items
  tracker : left.tracker = right.tracker
  trace : left.trace = right.trace
  forced : left.forced = right.forced

/-- The same end, in states that are alike. -/
inductive Outcome.Alike {α : Type} : Outcome α → Outcome α → Prop
  | done (value : α) {left right : State} :
      left.Alike right → Outcome.Alike (.done value left) (.done value right)
  | fault (cause : Fault) {left right : State} :
      left.Alike right → Outcome.Alike (.fault cause left) (.fault cause right)
  | exhausted : Outcome.Alike .exhausted .exhausted

/-- An action that leaves the snapshots as they were and does not depend on the log. -/
structure Balanced {α : Type} (action : Action α) : Prop where
  grows : ∀ {before after : State} {value : α}, action before = .done value after →
    before.stack.Grows after.stack
  blind : ∀ {left right : State}, left.Alike right → (action left).Alike (action right)

namespace Balanced

variable {α β : Type}

theorem pure (value : α) : Balanced (Pure.pure value : Action α) := by
  constructor
  · intro before after answer ended
    cases ended
    exact Stack.Grows.refl before.stack
  · intro left right alike
    exact .done value alike

theorem bind_answers {first : Action α} {next : α → Action β} (early : Balanced first)
    (late : ∀ value, first.Answers value → Balanced (next value)) : Balanced (first >>= next) := by
  constructor
  · intro before after answer ended
    obtain ⟨value, middle, began, went⟩ := Action.bind_eq_done ended
    exact (early.grows began).trans ((late value ⟨before, middle, began⟩).grows went)
  · intro left right alike
    -- The first part ends alike on both sides, and the second one starts in states that are alike.
    have began := early.blind alike
    generalize reached : first left = outcome at began
    generalize met : first right = other at began
    cases began with
    | done value middle =>
      rw [Action.bind_of_done reached, Action.bind_of_done met]
      exact (late value ⟨left, _, reached⟩).blind middle
    | fault cause after =>
      rw [Action.bind_of_fault reached, Action.bind_of_fault met]
      exact .fault cause after
    | exhausted =>
      rw [Action.bind_of_exhausted reached, Action.bind_of_exhausted met]
      exact .exhausted

theorem bind {first : Action α} {next : α → Action β} (early : Balanced first)
    (late : ∀ value, Balanced (next value)) : Balanced (first >>= next) :=
  bind_answers early fun value _ => late value

theorem exhausted : Balanced (Action.exhausted : Action α) := by
  constructor
  · intro before after answer ended
    cases ended
  · intro left right alike
    exact .exhausted

theorem fail (cause : Fault) : Balanced (Action.fail cause : Action α) := by
  constructor
  · intro before after answer ended
    cases ended
  · intro left right alike
    exact .fault cause alike

/-- Reading what states that are alike have in common. -/
theorem gets {read : State → α}
    (common : ∀ {left right : State}, left.Alike right → read left = read right) :
    Balanced (Action.gets read) := by
  constructor
  · intro before after answer ended
    cases ended
    exact Stack.Grows.refl before.stack
  · intro left right alike
    have answers : read right = read left := (common alike).symm
    simp only [Action.gets, answers]
    exact .done (read left) alike

/-- A change that can be taken back, and that changes states that are alike in the same way. -/
theorem modify {change : State → State}
    (grown : ∀ state : State, state.stack.Grows (change state).stack)
    (common : ∀ {left right : State}, left.Alike right → (change left).Alike (change right)) :
    Balanced (Action.modify change) := by
  constructor
  · intro before after answer ended
    cases ended
    exact grown before
  · intro left right alike
    exact .done () (common alike)

/-- A change of the tracker alone. -/
theorem track (change : Tracker → Tracker) : Balanced (Action.track change) := by
  refine modify (fun state => Stack.Grows.refl state.stack) fun alike => ?_
  exact ⟨alike.items, congrArg change alike.tracker, alike.trace, alike.forced⟩

theorem changeItems {change : Stack Span → Stack Span} {onItems : List Span → List Span}
    (grown : ∀ stack, Stack.Grows stack (change stack))
    (common : ∀ stack, (change stack).items = onItems stack.items) :
    Balanced (Action.changeItems change) := by
  refine modify (fun state => grown state.stack) fun {left right} alike => ?_
  have items : (change left.stack).items = (change right.stack).items := by
    rw [common, common, alike.items]
  exact ⟨items, alike.tracker, alike.trace, alike.forced⟩

theorem peek : Balanced (Action.gets fun state => state.stack.peek?) :=
  gets fun alike => by simp only [Stack.peek?, alike.items]

theorem slice (start : Int) (stop : Option Int) :
    Balanced (Action.gets fun state => state.stack.slice? start stop) :=
  gets fun alike => by simp only [Stack.slice?, Stack.size, alike.items]

theorem textOf (env : Env) (expr : Expr) : Balanced (Action.textOf env expr) := by
  refine bind (gets fun alike => by rw [alike.forced]) fun text => ?_
  cases text with
  | some text => exact pure text
  | none => exact fail .endlessText

theorem emit (env : Env) (event : TraceEvent) : Balanced (Action.emit env event) := by
  unfold Action.emit
  split
  · refine modify (fun state => Stack.Grows.refl state.stack) fun alike => ?_
    exact ⟨alike.items, alike.tracker, congrArg (event :: ·) alike.trace, alike.forced⟩
  · exact pure ()

theorem ofExcept {ε : Type} (fault : ε → Fault) (result : Except ε α) :
    Balanced (Action.ofExcept fault result) := by
  cases result with
  | ok value => exact pure value
  | error error => exact fail (fault error)

theorem force (env : Env) (cell : LazyCell) : Balanced (Action.force env cell) := by
  refine bind (ofExcept .build _) fun target => bind (modify ?_ ?_) fun _ => pure target
  · intro state
    split <;> exact Stack.Grows.refl state.stack
  · intro left right alike
    rw [alike.forced]
    split
    · exact alike
    · exact ⟨alike.items, alike.tracker, alike.trace, rfl⟩

theorem within (scope : Scope) {body : Action α} (inner : Balanced body) :
    Balanced (Action.within scope body) := by
  constructor
  · intro before after answer ended
    unfold Action.within at ended
    split at ended
    next value middle began =>
      cases ended
      have grown := inner.grows began
      exact grown
    · cases ended
    · cases ended
  · intro left right alike
    -- The scope is opened and closed in the same way on both sides.
    have opened : State.Alike { left with tracker := left.tracker.enter scope }
        { right with tracker := right.tracker.enter scope } :=
      ⟨alike.items, congrArg (·.enter scope) alike.tracker, alike.trace, alike.forced⟩
    have began := inner.blind opened
    have closed : ∀ {left right : State}, left.Alike right →
        State.Alike { left with tracker := left.tracker.leave scope }
          { right with tracker := right.tracker.leave scope } := fun alike =>
      ⟨alike.items, congrArg (·.leave scope) alike.tracker, alike.trace, alike.forced⟩
    unfold Action.within
    generalize body { left with tracker := left.tracker.enter scope } = outcome at began
    generalize body { right with tracker := right.tracker.enter scope } = other at began
    cases began with
    | done value after => exact .done value (closed after)
    | fault cause after => exact .fault cause (closed after)
    | exhausted => exact .exhausted

end Balanced

/-! ### Settling a snapshot -/

/-- The state with a snapshot of its stack opened. -/
def State.opened (state : State) : State := { state with stack := state.stack.snapshot }

theorem State.opened_alike (state : State) : state.Alike state.opened := ⟨rfl, rfl, rfl, rfl⟩

theorem State.Alike.opened {left right : State} (alike : left.Alike right) :
    left.opened.Alike right.opened :=
  ⟨alike.items, alike.tracker, alike.trace, alike.forced⟩

theorem Action.snapshot_eq (state : State) : Action.snapshot state = .done () state.opened := rfl

theorem Action.changeStack_of_ok {change : Stack Span → Except StackError (Stack Span)}
    {state : State} {stack : Stack Span} (changed : change state.stack = .ok stack) :
    Action.changeStack change state = .done () { state with stack := stack } := by
  simp only [changeStack, bind, Action.bind, gets, changed, ofExcept]
  rfl

/-- After balanced work a snapshot can always be settled. Taken back, it leaves the stack of which
it was made; kept, it leaves the items that are there. -/
theorem Action.settle_of_grows (keep : Option Match → Bool) (result : Option Match) {before : State}
    {inner : State} (grown : before.opened.stack.Grows inner.stack) :
    ∃ settled, Action.settle keep result inner = .done () { inner with stack := settled } ∧
      before.stack.Grows settled ∧ (keep result = true → settled.items = inner.stack.items) ∧
      (keep result = false → settled = before.stack) := by
  cases kept : keep result with
  | true =>
    -- The changes since the snapshot count as changes under the outer snapshots.
    obtain ⟨settled, committed, items, grows⟩ := Stack.commit_of_grows grown
    refine ⟨settled, ?_, grows, fun _ => items, nofun⟩
    rw [Action.settle, if_pos kept]
    exact Action.changeStack_of_ok committed
  | false =>
    -- The log leads back to the snapshot, however far the items went below it in between.
    have restored := Stack.restore_of_grows grown
    refine ⟨before.stack, ?_, Stack.Grows.refl _, nofun, fun _ => rfl⟩
    rw [Action.settle, if_neg (Bool.eq_false_iff.mp kept)]
    exact Action.changeStack_of_ok restored

namespace Balanced

/-- What comes of a transaction whose body is balanced. -/
theorem transaction_eq_done (keep : Option Match → Bool) {body : Action (Option Match)}
    (inner : Balanced body) {before after : State} {result : Option Match}
    (ended : Action.transaction keep body before = .done result after) :
    ∃ left, body before.opened = .done result left ∧ before.stack.Grows after.stack ∧
      (keep result = true → after.stack.items = left.stack.items) ∧
      (keep result = false → after.stack = before.stack) := by
  unfold Action.transaction at ended
  rw [Action.bind_of_done (Action.snapshot_eq before)] at ended
  obtain ⟨found, left, began, went⟩ := Action.bind_eq_done ended
  obtain ⟨settled, settles, grows, kept, dropped⟩ :=
    Action.settle_of_grows keep found (inner.grows began)
  rw [Action.bind_of_done settles] at went
  cases went
  exact ⟨left, began, grows, kept, dropped⟩

theorem transaction (keep : Option Match → Bool) {body : Action (Option Match)}
    (inner : Balanced body) : Balanced (Action.transaction keep body) := by
  constructor
  · intro before after result ended
    obtain ⟨left, began, grows, kept, dropped⟩ := transaction_eq_done keep inner ended
    exact grows
  · intro left right alike
    have began := inner.blind alike.opened
    unfold Action.transaction
    rw [Action.bind_of_done (Action.snapshot_eq left),
      Action.bind_of_done (Action.snapshot_eq right)]
    generalize reached : body left.opened = outcome at began
    generalize met : body right.opened = other at began
    cases began with
    | done result alikeAfter =>
      rw [Action.bind_of_done reached, Action.bind_of_done met]
      obtain ⟨first, settles, _, kept, dropped⟩ :=
        Action.settle_of_grows keep result (inner.grows reached)
      obtain ⟨second, alsoSettles, _, alsoKept, alsoDropped⟩ :=
        Action.settle_of_grows keep result (inner.grows met)
      rw [Action.bind_of_done settles, Action.bind_of_done alsoSettles]
      -- Both sides settle alike: with the items of the body, or with those of the stack before.
      have items : first.items = second.items := by
        cases choice : keep result with
        | true => rw [kept choice, alsoKept choice, alikeAfter.items]
        | false => rw [dropped choice, alsoDropped choice, alike.items]
      exact .done result ⟨items, alikeAfter.tracker, alikeAfter.trace, alikeAfter.forced⟩
    | fault cause alikeAfter =>
      rw [Action.bind_of_fault reached, Action.bind_of_fault met]
      exact .fault cause alikeAfter
    | exhausted =>
      rw [Action.bind_of_exhausted reached, Action.bind_of_exhausted met]
      exact .exhausted

theorem hereditary (env : Env) : Hereditary env Balanced where
  pure := pure
  bind := bind_answers
  exhausted := exhausted
  fail cause _ := fail cause
  peek := peek
  slice := slice
  pop := changeItems Stack.grows_pop Stack.pop_items
  clear := @changeItems Stack.clear (fun _ => []) Stack.grows_clear Stack.clear_items
  push span := changeItems (fun stack => Stack.grows_push stack span)
    (fun _ => Stack.record_items _ (.pushed span))
  track {failure} _ offset kind := track (·.recordFailure failure offset kind)
  failedPredicate positive body start :=
    bind (textOf env body) fun label =>
      bind (track (·.recordPredicate positive label start.offset)) fun _ => pure none
  emit := emit env
  force := force env
  within := within
  transaction := transaction

/-- Matching any expression is balanced. -/
theorem eval (env : Env) (fuel : Nat) (expr : Expr) (start : Position) (atomic : Bool) :
    Balanced (eval env fuel expr start atomic) :=
  (hereditary env).eval fuel expr start atomic

end Balanced

/-! ### Nodes leave the stack alone -/

theorem Action.span_eq_done {start stop : Position} {span : Span} {state after : State}
    (ended : Action.span start stop state = .done span after) : after = state := by
  unfold Action.span at ended
  cases made : start.spanTo stop with
  | ok span =>
    rw [made] at ended
    cases ended
    rfl
  | error error =>
    rw [made] at ended
    cases ended

namespace Clause

variable {env : Env} {body : Expr} {start stop : Position} {state after : State}

theorem answer_eq_done {node : Span → Option Match} {result : Option Match}
    (ended : (Action.span start stop >>= fun span => pure (node span)) state =
      .done result after) : after = state := by
  obtain ⟨span, middle, made, went⟩ := Action.bind_eq_done ended
  cases went
  exact Action.span_eq_done made

theorem optNode_stack {inner result : Option Match}
    (ended : optNode start inner state = .done result after) : after.stack = state.stack :=
  congrArg State.stack (answer_eq_done ended)

theorem failedPredicate_stack {positive : Bool} {result : Option Match}
    (ended : (Action.textOf env body >>= fun label =>
      Action.track (·.recordPredicate positive label start.offset) >>= fun _ => pure none) state =
        .done result after) : after.stack = state.stack := by
  obtain ⟨label, middle, shown, recorded⟩ := Action.bind_eq_done ended
  obtain ⟨-, rfl⟩ := Action.textOf_eq_done shown
  cases recorded
  rfl

theorem positiveNode_stack {inner result : Option Match}
    (ended : positiveNode env body start inner state = .done result after) :
    after.stack = state.stack := by
  cases inner with
  | none => exact failedPredicate_stack ended
  | some found => exact congrArg State.stack (answer_eq_done ended)

theorem negativeNode_stack {inner result : Option Match}
    (ended : negativeNode env body start inner state = .done result after) :
    after.stack = state.stack := by
  cases inner with
  | none => exact congrArg State.stack (answer_eq_done ended)
  | some found => exact failedPredicate_stack ended

end Clause

/-! ### Main result -/

section Main

variable {env : Env} {body : Expr} {start : Position} {atomic : Bool} {before after : State}
  {result : Option Match}

/-- A transaction that takes everything back leaves the stack as it was, snapshots included. -/
theorem stack_of_rollback {inner : Action (Option Match)} (balanced : Balanced inner)
    {node : Option Match → Action (Option Match)}
    (quiet : ∀ {found result : Option Match} {state after : State},
      node found state = .done result after → after.stack = state.stack)
    (ended : (Action.transaction (fun _ => false) inner >>= node) before = .done result after) :
    after.stack = before.stack := by
  obtain ⟨found, middle, settled, went⟩ := Action.bind_eq_done ended
  obtain ⟨left, began, grows, kept, dropped⟩ := balanced.transaction_eq_done _ settled
  exact (quiet went).trans (dropped rfl)

theorem stack_of_positive
    (finishes : Finishes env (.positive body) start atomic before result after) :
    after.stack = before.stack := by
  obtain ⟨fuel, ended⟩ := finishes.exists_eval
  rw [eval_positive] at ended
  exact stack_of_rollback ((Balanced.eval env fuel body start atomic).within _)
    Clause.positiveNode_stack ended

theorem stack_of_negative
    (finishes : Finishes env (.negative body) start atomic before result after) :
    after.stack = before.stack := by
  obtain ⟨fuel, ended⟩ := finishes.exists_eval
  rw [eval_negative] at ended
  exact stack_of_rollback ((Balanced.eval env fuel body start atomic).within _)
    Clause.negativeNode_stack ended

/-- The items after a part that may be taken back: those that it left, or, if it failed, those that
were there before. -/
def itemsAfter (result : Option Match) (before left : State) : List Span :=
  if result.isSome then left.stack.items else before.stack.items

/-- A transaction that keeps what succeeds leaves the items that its body leaves by itself. -/
theorem items_of_transaction {fuel : Nat}
    (ended : Action.transaction Option.isSome (eval env fuel body start atomic) before =
      .done result after) :
    ∃ left, Finishes env body start atomic before result left ∧
      after.stack.items = itemsAfter result before left := by
  have balanced := Balanced.eval env fuel body start atomic
  obtain ⟨inner, began, grows, kept, dropped⟩ := balanced.transaction_eq_done _ ended
  -- By itself the body starts without the snapshot, which it does not notice.
  have alone := balanced.blind before.opened_alike
  rw [began] at alone
  generalize met : eval env fuel body start atomic before = outcome at alone
  cases alone with
  | done result alike =>
    refine ⟨_, finishes_iff_eval.mpr ⟨fuel, met⟩, ?_⟩
    unfold itemsAfter
    cases found : result.isSome with
    | true => exact (kept found).trans alike.items.symm
    | false => exact congrArg Stack.items (dropped found)

theorem items_of_restorable
    (finishes : Finishes env (.restorable body) start atomic before result after) :
    ∃ left, Finishes env body start atomic before result left ∧
      after.stack.items = itemsAfter result before left := by
  obtain ⟨fuel, ended⟩ := finishes.exists_eval
  rw [eval_restorable] at ended
  exact items_of_transaction ended

theorem items_of_opt (finishes : Finishes env (.opt body) start atomic before result after) :
    ∃ inner left, Finishes env body start atomic before inner left ∧
      after.stack.items = itemsAfter inner before left := by
  obtain ⟨fuel, ended⟩ := finishes.exists_eval
  rw [eval_opt] at ended
  obtain ⟨inner, middle, settled, went⟩ := Action.bind_eq_done ended
  obtain ⟨left, finished, items⟩ := items_of_transaction settled
  exact ⟨inner, left, finished, (congrArg Stack.items (Clause.optNode_stack went)).trans items⟩

end Main

/-- Where matching finishes, lookaheads have left the items of the stack as they were, whether they
matched or not; optional and restorable parts have left them as they were if the part failed, and
otherwise as the part leaves them. -/
theorem transactions_settle_items (env : Env) (body : Expr) (start : Position) (atomic : Bool)
    (before : State) :
    (∀ result after, Finishes env (.positive body) start atomic before result after →
        after.stack.items = before.stack.items) ∧
      (∀ result after, Finishes env (.negative body) start atomic before result after →
        after.stack.items = before.stack.items) ∧
      (∀ result after, Finishes env (.opt body) start atomic before result after →
        ∃ inner left, Finishes env body start atomic before inner left ∧
          after.stack.items = itemsAfter inner before left) ∧
      (∀ result after, Finishes env (.restorable body) start atomic before result after →
        ∃ left, Finishes env body start atomic before result left ∧
          after.stack.items = itemsAfter result before left) := by
  refine ⟨?_, ?_, ?_, ?_⟩
  · intro result after finishes
    exact congrArg Stack.items (stack_of_positive finishes)
  · intro result after finishes
    exact congrArg Stack.items (stack_of_negative finishes)
  · intro result after finishes
    exact items_of_opt finishes
  · intro result after finishes
    exact items_of_restorable finishes

/-- A letter that is put on the stack stays there after an optional part, and not after a lookahead.
-/
theorem pushed_letter_settled :
    (∃ result after, Finishes { input := ⟨0, #['a']⟩ } (.positive (.push (.literal "a")))
        (.start ⟨0, #['a']⟩) true {} result after ∧ after.stack.items = []) ∧
      ∃ result after, Finishes { input := ⟨0, #['a']⟩ } (.opt (.push (.literal "a")))
        (.start ⟨0, #['a']⟩) true {} result after ∧ ∃ inner left, inner.isSome = true ∧
          after.stack.items = itemsAfter inner {} left ∧ left.stack.items.length = 1 := by
  have settled := transactions_settle_items { input := ⟨0, #['a']⟩ } (.push (.literal "a"))
    (.start ⟨0, #['a']⟩) true {}
  constructor
  · exact ⟨_, _, ⟨10, rfl⟩, settled.1 _ _ ⟨10, rfl⟩⟩
  · refine ⟨_, _, ⟨10, rfl⟩, ?_⟩
    obtain ⟨inner, left, finished, items⟩ := settled.2.2.1 _ _ ⟨10, rfl⟩
    have alone : Finishes { input := ⟨0, #['a']⟩ } (.push (.literal "a"))
      (.start ⟨0, #['a']⟩) true {} _ _ := ⟨10, rfl⟩
    obtain ⟨same, also⟩ := alone.unique finished
    subst same also
    exact ⟨_, _, rfl, items, rfl⟩

end Peg
