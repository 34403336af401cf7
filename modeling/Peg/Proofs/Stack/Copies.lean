import Peg.Proofs.Stack.Undo

/-!
# The log against saved copies

A stack notes its changes where it could as well save a copy of all items for each snapshot. The two
cannot be told apart: `copied` reads the copies off the log, and each operation does to them what it
does to a stack that holds them. What is needed of the log is that the marks lie in it in the order
of their snapshots.
-/
namespace Peg

variable {α : Type}

/-- What can be done with a stack. -/
inductive StackOperation (α : Type) where
  | push (item : α)
  | pop
  | peek
  | clear
  | snapshot
  | restore
  | commit

/-- What an operation answers: the item it was asked for, if there is one, or why it is refused. -/
abbrev StackReply (α : Type) := Except StackError (Option α)

/-- The answer of a change and the stack after it, which is as before if the change is refused. -/
def StackReply.ofChange {σ : Type} (before : σ) : Except StackError σ → StackReply α × σ
  | .ok after => (.ok none, after)
  | .error error => (.error error, before)

/-- The answers to operations that are made in a row, each with the stack after it. -/
def history {σ : Type} (step : σ → StackOperation α → StackReply α × σ) :
    σ → List (StackOperation α) → List (StackReply α × σ)
  | _, [] => []
  | stack, operation :: rest =>
    step stack operation :: history step (step stack operation).2 rest

/-- Makes an operation. -/
def Stack.step (stack : Stack α) : StackOperation α → StackReply α × Stack α
  | .push item => (.ok none, stack.push item)
  | .pop => (.ok stack.pop.1, stack.pop.2)
  | .peek => (.ok stack.peek?, stack)
  | .clear => (.ok none, stack.clear)
  | .snapshot => (.ok none, stack.snapshot)
  | .restore => StackReply.ofChange stack stack.restore
  | .commit => StackReply.ofChange stack stack.commit

/-- A stack that saves a copy of its items for each open snapshot. -/
structure CopyStack (α : Type) where
  /-- The items, top first. -/
  items : List α
  /-- For each open snapshot, innermost first, the items when it was opened. -/
  copies : List (List α) := []

namespace CopyStack

/-- Puts the latest copy back. -/
def restore (stack : CopyStack α) : Except StackError (CopyStack α) :=
  match stack.copies with
  | [] => .error .nothingToRestore
  | latest :: older => .ok ⟨latest, older⟩

/-- Drops the latest copy. -/
def commit (stack : CopyStack α) : Except StackError (CopyStack α) :=
  match stack.copies with
  | [] => .error .nothingToClear
  | _ :: older => .ok { stack with copies := older }

/-- Makes an operation. -/
def step (stack : CopyStack α) : StackOperation α → StackReply α × CopyStack α
  | .push item => (.ok none, { stack with items := item :: stack.items })
  | .pop => (.ok stack.items.head?, { stack with items := stack.items.tail })
  | .peek => (.ok stack.items.head?, stack)
  | .clear => (.ok none, { stack with items := [] })
  | .snapshot => (.ok none, { stack with copies := stack.items :: stack.copies })
  | .restore => StackReply.ofChange stack stack.restore
  | .commit => StackReply.ofChange stack stack.commit

end CopyStack

namespace Stack

/-- The marks lie in the log, an inner one not before an outer one. The log is empty unless a
snapshot is open, so that the outermost mark is its start. -/
structure WellMarked (stack : Stack α) : Prop where
  ordered : stack.marks.Pairwise fun inner outer => outer ≤ inner
  bounded : ∀ mark ∈ stack.marks, mark ≤ stack.log.length
  idle : stack.marks = [] → stack.log = []
  outermost : ∀ mark ∈ stack.marks.getLast?, mark = 0

/-- The items when the log had only reached a mark. -/
def itemsAt (stack : Stack α) (mark : Nat) : List α :=
  undoAll stack.items (stack.log.take (stack.log.length - mark))

/-- The stack of copies that a log stands for. -/
def copied (stack : Stack α) : CopyStack α := ⟨stack.items, stack.marks.map stack.itemsAt⟩

theorem wellMarked_ofList (items : List α) : (ofList items).WellMarked :=
  ⟨List.Pairwise.nil, by simp [ofList], fun _ => rfl, by simp [ofList]⟩

/-! ### What operations do to the copies -/

theorem wellMarked_of_grows {before after : Stack α} (wellMarked : before.WellMarked)
    (grown : Grows before after) : after.WellMarked := by
  refine ⟨grown.marks_eq ▸ wellMarked.ordered, ?_, fun closed => ?_,
    grown.marks_eq ▸ wellMarked.outermost⟩
  · intro mark member
    rw [grown.marks_eq] at member
    obtain ⟨changes, log, _⟩ := grown.undone (List.ne_nil_of_mem member)
    have bound := wellMarked.bounded mark member
    rw [log, List.length_append]
    omega
  · have before_closed := grown.marks_eq.symm.trans closed
    exact grown.idle before_closed (wellMarked.idle before_closed)

theorem itemsAt_of_grows {before after : Stack α} (grown : Grows before after)
    (opened : before.marks ≠ []) {mark : Nat} (inside : mark ≤ before.log.length) :
    after.itemsAt mark = before.itemsAt mark := by
  obtain ⟨changes, log, items⟩ := grown.undone opened
  -- The later changes are undone first, and then as many as before.
  have reach : after.log.length - mark = changes.length + (before.log.length - mark) := by
    rw [log, List.length_append]
    omega
  rw [itemsAt, reach, log, List.take_length_add_append, undoAll_append, items, itemsAt]

/-- Balanced work changes the items and no copy. -/
theorem copied_of_grows {before after : Stack α} (wellMarked : before.WellMarked)
    (grown : Grows before after) :
    after.copied = { before.copied with items := after.items } := by
  have copies : after.marks.map after.itemsAt = before.marks.map before.itemsAt := by
    rw [grown.marks_eq]
    apply List.map_congr_left
    intro mark member
    exact itemsAt_of_grows grown (List.ne_nil_of_mem member) (wellMarked.bounded mark member)
  simp only [copied, copies]

theorem wellMarked_snapshot {stack : Stack α} (wellMarked : stack.WellMarked) :
    stack.snapshot.WellMarked := by
  refine ⟨List.pairwise_cons.mpr ⟨wellMarked.bounded, wellMarked.ordered⟩, ?_, by simp [snapshot],
    ?_⟩
  · intro mark member
    rcases List.mem_cons.mp member with rfl | member
    · exact Nat.le_refl _
    · exact wellMarked.bounded mark member
  · intro mark last
    cases marks : stack.marks with
    | nil =>
      -- The new mark is the outermost one, and is the length of an empty log.
      have empty : stack.log = [] := wellMarked.idle marks
      simpa [snapshot, marks, empty, eq_comm] using last
    | cons inner outer =>
      apply wellMarked.outermost
      simpa [snapshot, marks] using last

theorem copied_snapshot (stack : Stack α) :
    stack.snapshot.copied = { stack.copied with copies := stack.items :: stack.copied.copies } := by
  have here : stack.snapshot.itemsAt stack.log.length = stack.items := by
    simp [itemsAt, snapshot]
  simp only [copied, snapshot, List.map_cons]
  exact congrArg (CopyStack.mk stack.items <| · :: _) here

/-- What the marks of the outer snapshots need when the innermost one is closed. -/
theorem wellMarked_of_closed {stack after : Stack α} (wellMarked : stack.WellMarked) {mark : Nat}
    (marks : stack.marks = mark :: after.marks) (reach : after.marks ≠ [] → mark ≤ after.log.length)
    (idle : after.marks = [] → after.log = []) : after.WellMarked := by
  have ordered := List.pairwise_cons.mp (marks ▸ wellMarked.ordered)
  refine ⟨ordered.2, fun outer member => ?_, idle, fun last isLast => ?_⟩
  · exact Nat.le_trans (ordered.1 outer member) (reach (List.ne_nil_of_mem member))
  · apply wellMarked.outermost
    -- While another snapshot is open, the outermost mark stays the same.
    have opened : after.marks ≠ [] := List.ne_nil_of_mem (List.mem_of_getLast? isLast)
    rw [marks, List.getLast?_cons_of_ne_nil opened]
    exact isLast

theorem restore_of_marks {stack : Stack α} (wellMarked : stack.WellMarked) {mark : Nat}
    {outer : List Nat} (marks : stack.marks = mark :: outer) :
    ∃ after, stack.restore = .ok after ∧ after.WellMarked ∧
      after.copied = ⟨stack.itemsAt mark, outer.map stack.itemsAt⟩ := by
  have inside : mark ≤ stack.log.length := wellMarked.bounded mark (marks ▸ List.mem_cons_self)
  let after : Stack α :=
    ⟨stack.itemsAt mark, stack.log.drop (stack.log.length - mark), outer⟩
  have left : after.log.length = mark := by
    simp only [after, List.length_drop]
    omega
  have restored : stack.restore = .ok after := by
    simp only [restore, marks, after, itemsAt, undoAll]
  refine ⟨after, restored, ?_, ?_⟩
  · apply wellMarked_of_closed wellMarked marks (fun _ => Nat.le_of_eq left.symm)
    intro closed
    -- The innermost snapshot was the outermost one, too: its mark is the start of the log.
    have start : mark = 0 := by
      apply wellMarked.outermost
      simp only [after] at closed
      simp [marks, closed]
    exact List.eq_nil_of_length_eq_zero (left.trans start)
  · -- Undoing from the restored items down to an outer mark is the rest of undoing from the top.
    have older : outer.map after.itemsAt = outer.map stack.itemsAt := by
      apply List.map_congr_left
      intro earlier member
      have below : earlier ≤ mark :=
        (List.pairwise_cons.mp (marks ▸ wellMarked.ordered)).1 earlier member
      have split : stack.log.length - earlier = (stack.log.length - mark) + (mark - earlier) := by
        omega
      rw [itemsAt, itemsAt, left, split, List.take_add, undoAll_append, ← itemsAt]
    simp only [copied, after] at older ⊢
    rw [older]

theorem commit_of_marks {stack : Stack α} (wellMarked : stack.WellMarked) {mark : Nat}
    {outer : List Nat} (marks : stack.marks = mark :: outer) :
    ∃ after, stack.commit = .ok after ∧ after.WellMarked ∧
      after.copied = ⟨stack.items, outer.map stack.itemsAt⟩ := by
  have inside : mark ≤ stack.log.length := wellMarked.bounded mark (marks ▸ List.mem_cons_self)
  let after : Stack α :=
    { stack with log := if outer.isEmpty then [] else stack.log, marks := outer }
  have committed : stack.commit = .ok after := by simp only [commit, marks, after]
  refine ⟨after, committed, ?_, ?_⟩
  · apply wellMarked_of_closed wellMarked marks
    · intro opened
      have whole : after.log = stack.log := by simp_all [after]
      exact whole ▸ inside
    · intro closed
      simp_all [after]
  · -- The log is dropped with the last snapshot only, when no copy is left to be read off it.
    cases outer with
    | nil => rfl
    | cons next others => rfl

/-! ### Agreement -/

/-- Each operation answers as it does on the copies, and leaves what it leaves of the copies. -/
theorem step_copied {stack : Stack α} (wellMarked : stack.WellMarked)
    (operation : StackOperation α) :
    (stack.step operation).2.WellMarked ∧
      stack.copied.step operation =
        ((stack.step operation).1, (stack.step operation).2.copied) := by
  cases operation with
  | push item =>
    have grown := grows_push stack item
    have pushed : (stack.push item).items = item :: stack.items := record_items _ _
    refine ⟨wellMarked_of_grows wellMarked grown, ?_⟩
    simp only [step, CopyStack.step, copied_of_grows wellMarked grown, pushed]
    rfl
  | pop =>
    have grown := grows_pop stack
    refine ⟨wellMarked_of_grows wellMarked grown, ?_⟩
    simp only [step, CopyStack.step, copied_of_grows wellMarked grown, pop_items, pop_fst]
    rfl
  | peek => exact ⟨wellMarked, rfl⟩
  | clear =>
    have grown := grows_clear stack
    refine ⟨wellMarked_of_grows wellMarked grown, ?_⟩
    simp only [step, CopyStack.step, copied_of_grows wellMarked grown, clear_items]
  | snapshot => exact ⟨wellMarked_snapshot wellMarked, by rw [step, copied_snapshot]; rfl⟩
  | restore =>
    -- There is a snapshot to restore exactly if there is a copy to put back.
    cases marks : stack.marks with
    | nil =>
      have refused : stack.restore = .error .nothingToRestore := by simp only [restore, marks]
      have none_saved : stack.copied.restore = .error .nothingToRestore := by
        simp only [CopyStack.restore, copied, marks, List.map_nil]
      simp only [step, CopyStack.step, refused, none_saved, StackReply.ofChange]
      exact ⟨wellMarked, trivial⟩
    | cons mark outer =>
      obtain ⟨after, restored, kept, copies⟩ := restore_of_marks wellMarked marks
      have latest : stack.copied.restore = .ok after.copied := by
        simp only [CopyStack.restore, copied, marks, List.map_cons] at copies ⊢
        rw [copies]
      simp only [step, CopyStack.step, restored, latest, StackReply.ofChange]
      exact ⟨kept, trivial⟩
  | commit =>
    cases marks : stack.marks with
    | nil =>
      have refused : stack.commit = .error .nothingToClear := by simp only [commit, marks]
      have none_saved : stack.copied.commit = .error .nothingToClear := by
        simp only [CopyStack.commit, copied, marks, List.map_nil]
      simp only [step, CopyStack.step, refused, none_saved, StackReply.ofChange]
      exact ⟨wellMarked, trivial⟩
    | cons mark outer =>
      obtain ⟨after, committed, kept, copies⟩ := commit_of_marks wellMarked marks
      have dropped : stack.copied.commit = .ok after.copied := by
        simp only [CopyStack.commit, copied, marks, List.map_cons] at copies ⊢
        rw [copies]
      simp only [step, CopyStack.step, committed, dropped, StackReply.ofChange]
      exact ⟨kept, trivial⟩

theorem history_copied {stack : Stack α} (wellMarked : stack.WellMarked)
    (operations : List (StackOperation α)) :
    history CopyStack.step stack.copied operations =
        (history step stack operations).map (fun entry => (entry.1, entry.2.copied)) ∧
      ∀ entry ∈ history step stack operations, entry.2.WellMarked := by
  induction operations generalizing stack with
  | nil => exact ⟨rfl, by simp [history]⟩
  | cons operation rest ih =>
    -- The stack after the first operation is well marked again, so that the rest goes alike.
    obtain ⟨kept, same⟩ := step_copied wellMarked operation
    obtain ⟨equal, all⟩ := ih kept
    simp only [history, List.map_cons, same, equal, List.mem_cons]
    refine ⟨trivial, ?_⟩
    rintro entry (rfl | member)
    · exact kept
    · exact all entry member

/-- Whatever is done with a stack, it answers at each step what a stack with saved copies answers,
refuses what that refuses, and holds the same items. After each step its marks lie in the log in
their order, and the log is empty while no snapshot is open. -/
theorem history_agrees_with_copies (items : List α) (operations : List (StackOperation α)) :
    (history step (ofList items) operations).map (fun entry => (entry.1, entry.2.items)) =
        (history CopyStack.step ⟨items.reverse, []⟩ operations).map
          (fun entry => (entry.1, entry.2.items)) ∧
      ∀ entry ∈ history step (ofList items) operations,
        entry.2.marks.Pairwise (fun inner outer => outer ≤ inner) ∧
        (∀ mark ∈ entry.2.marks, mark ≤ entry.2.log.length) ∧
        (entry.2.marks = [] → entry.2.log = []) := by
  obtain ⟨same, all⟩ := history_copied (wellMarked_ofList items) operations
  have start : (ofList items).copied = ⟨items.reverse, []⟩ := rfl
  refine ⟨?_, fun entry member => ?_⟩
  · rw [← start, same, List.map_map]
    rfl
  · have wellMarked := all entry member
    exact ⟨wellMarked.ordered, wellMarked.bounded, wellMarked.idle⟩

end Stack

end Peg
