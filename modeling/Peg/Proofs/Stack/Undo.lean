import Peg.Stack

/-!
# Taking changes back

What a stack looks like after a balanced piece of work: the same snapshots are open, and while any
snapshot is open the log tells how to get back. Nothing is asked of the stack before. So a snapshot
that is opened, worked under and restored gives back exactly the stack that it was taken of, and one
that is committed leaves a stack that has itself only grown.
-/
namespace Peg.Stack

variable {α : Type}

/-- The items before some changes, the latest first, were made. -/
def undoAll (items : List α) (changes : List (StackChange α)) : List α := changes.foldl undo items

@[simp] theorem undoAll_nil (items : List α) : undoAll items [] = items := rfl

theorem undoAll_append (items : List α) (later earlier : List (StackChange α)) :
    undoAll items (later ++ earlier) = undoAll (undoAll items later) earlier :=
  List.foldl_append

/-- The same snapshots are open. While one is, the log leads from the later items back to the
earlier ones, and while none is, an empty log stays empty. -/
structure Grows (before after : Stack α) : Prop where
  marks_eq : after.marks = before.marks
  undone : before.marks ≠ [] → ∃ changes, after.log = changes ++ before.log ∧
    undoAll after.items changes = before.items
  idle : before.marks = [] → before.log = [] → after.log = []

theorem Grows.refl (stack : Stack α) : Grows stack stack :=
  ⟨rfl, fun _ => ⟨[], rfl, rfl⟩, fun _ empty => empty⟩

theorem Grows.trans {first second third : Stack α} (early : Grows first second)
    (late : Grows second third) : Grows first third := by
  refine ⟨late.marks_eq.trans early.marks_eq, fun opened => ?_, fun closed empty =>
    late.idle (early.marks_eq.trans closed) (early.idle closed empty)⟩
  obtain ⟨earlier, earlierLog, earlierItems⟩ := early.undone opened
  obtain ⟨later, laterLog, laterItems⟩ := late.undone (early.marks_eq ▸ opened)
  refine ⟨later ++ earlier, ?_, ?_⟩
  · rw [laterLog, earlierLog, List.append_assoc]
  · rw [undoAll_append, laterItems, earlierItems]

/-! ### Single changes -/

@[simp] theorem record_items (stack : Stack α) (change : StackChange α) :
    (stack.record change).items = stack.items := by
  unfold record
  split <;> rfl

@[simp] theorem record_marks (stack : Stack α) (change : StackChange α) :
    (stack.record change).marks = stack.marks := by
  unfold record
  split <;> rfl

theorem record_log (stack : Stack α) (change : StackChange α) (opened : stack.marks ≠ []) :
    (stack.record change).log = change :: stack.log := by
  simp [record, opened]

theorem record_of_closed (stack : Stack α) (change : StackChange α) (closed : stack.marks = []) :
    stack.record change = stack := by
  simp [record, closed]

theorem pop_items (stack : Stack α) : stack.pop.2.items = stack.items.tail := by
  cases stacked : stack.items with
  | nil => simp [pop, stacked]
  | cons item rest => simp [pop, stacked]

theorem pop_fst (stack : Stack α) : stack.pop.1 = stack.items.head? := by
  cases stacked : stack.items with
  | nil => simp [pop, stacked]
  | cons item rest => simp [pop, stacked]

theorem popMany_items (stack : Stack α) (count : Nat) :
    (stack.popMany count).items = stack.items.drop count := by
  induction count generalizing stack with
  | zero => rfl
  | succ count ih => rw [popMany, ih, pop_items, List.drop_tail]

theorem clear_items (stack : Stack α) : stack.clear.items = [] := by
  rw [clear, popMany_items, size, List.drop_length]

/-- A change that is recorded can be taken back. -/
theorem grows_record (stack : Stack α) (items : List α) (change : StackChange α)
    (back : undo items change = stack.items) :
    Grows stack ({ stack with items := items }.record change) := by
  refine ⟨record_marks _ _, fun opened => ⟨[change], record_log _ _ opened, ?_⟩, ?_⟩
  · rw [record_items]
    exact back
  · -- Without a snapshot nothing is noted.
    intro closed empty
    have unnoted := record_of_closed { stack with items := items } change closed
    rw [unnoted]
    exact empty

theorem grows_push (stack : Stack α) (item : α) : Grows stack (stack.push item) :=
  grows_record stack _ _ rfl

theorem grows_pop (stack : Stack α) : Grows stack stack.pop.2 := by
  cases stacked : stack.items with
  | nil =>
    have unchanged : stack.pop.2 = stack := by simp only [pop, stacked]
    rw [unchanged]
    exact Grows.refl stack
  | cons item rest =>
    have changed : stack.pop.2 = { stack with items := rest }.record (.popped item) := by
      simp only [pop, stacked]
    rw [changed]
    exact grows_record stack rest (.popped item) stacked.symm

theorem grows_popMany (stack : Stack α) (count : Nat) : Grows stack (stack.popMany count) := by
  induction count generalizing stack with
  | zero => exact Grows.refl stack
  | succ count ih => exact (grows_pop stack).trans (ih stack.pop.2)

theorem grows_clear (stack : Stack α) : Grows stack stack.clear := grows_popMany stack stack.size

/-! ### Transactions -/

/-- Restoring a snapshot gives back exactly the stack of which it was taken. -/
theorem restore_of_grows {stack inner : Stack α} (grown : Grows stack.snapshot inner) :
    inner.restore = .ok stack := by
  -- The snapshot is open itself, so that the log leads back to it; its mark tells how far.
  obtain ⟨changes, log, items⟩ := grown.undone (List.cons_ne_nil _ _)
  have marks : inner.marks = stack.log.length :: stack.marks := grown.marks_eq
  have count : inner.log.length - stack.log.length = changes.length := by
    rw [log]
    simp [snapshot]
  simp only [restore, marks, count]
  simp only [log, snapshot, List.take_left', List.drop_left']
  change undoAll inner.items changes = stack.items at items
  simp only [undoAll] at items
  rw [items]

/-- Committing a snapshot keeps the items, and the outer snapshots can still be restored. -/
theorem commit_of_grows {stack inner : Stack α} (grown : Grows stack.snapshot inner) :
    ∃ kept, inner.commit = .ok kept ∧ kept.items = inner.items ∧ Grows stack kept := by
  obtain ⟨changes, log, items⟩ := grown.undone (List.cons_ne_nil _ _)
  have marks : inner.marks = stack.log.length :: stack.marks := grown.marks_eq
  let kept : Stack α :=
    { inner with log := if stack.marks.isEmpty then [] else inner.log, marks := stack.marks }
  refine ⟨kept, by simp only [commit, marks, kept], rfl, rfl, fun opened => ⟨changes, ?_, items⟩,
    fun closed _ => by simp [kept, closed]⟩
  -- Under an outer snapshot the log is kept as it is.
  have whole : kept.log = inner.log := by simp [kept, opened]
  exact whole.trans log

end Peg.Stack
