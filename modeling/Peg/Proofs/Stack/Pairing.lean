import Mathlib.Data.List.Forall2
import Peg.Stack

/-!
# Two stacks side by side

Two stacks are paired if their items correspond one by one, those in the logged changes as well, and
if they have the same snapshots open. Nothing that is done to a stack depends on what its items are,
so paired stacks stay paired if the same is done to both, and both refuse the same.
-/
namespace Peg

open List (Forall₂)

/-- Both sides answer, and the answers correspond, or both have the same error. -/
inductive AnswersAlike {ε α β : Type} (values : α → β → Prop) : Except ε α → Except ε β → Prop
  | ok {left : α} {right : β} : values left right → AnswersAlike values (.ok left) (.ok right)
  | error (error : ε) : AnswersAlike values (.error error) (.error error)

variable {α β : Type} {related : α → β → Prop}

theorem AnswersAlike.flip {ε : Type} {left : Except ε α} {right : Except ε β}
    (alike : AnswersAlike related left right) : AnswersAlike (flip related) right left := by
  cases alike with
  | ok values => exact .ok values
  | error error => exact .error error

/-- The same change, of items that correspond. -/
inductive StackChange.Paired (related : α → β → Prop) : StackChange α → StackChange β → Prop
  | pushed {left : α} {right : β} :
      related left right → Paired related (.pushed left) (.pushed right)
  | popped {left : α} {right : β} :
      related left right → Paired related (.popped left) (.popped right)

/-- The items of the stacks correspond, and the same snapshots are open. -/
structure Stack.Paired (related : α → β → Prop) (left : Stack α) (right : Stack β) : Prop where
  items : Forall₂ related left.items right.items
  log : Forall₂ (StackChange.Paired related) left.log right.log
  marks : left.marks = right.marks

theorem rel_flip {left : Option α} {right : Option β} (paired : Option.Rel related left right) :
    Option.Rel (flip related) right left := by
  cases paired with
  | some first => exact .some first
  | none => exact .none

theorem forall₂_flip {left : List α} {right : List β} (paired : Forall₂ related left right) :
    Forall₂ (flip related) right left := by
  induction paired with
  | nil => exact .nil
  | cons first _ ih => exact .cons first ih

theorem eq_of_forall₂ {left right : List α} (paired : Forall₂ Eq left right) : left = right := by
  rwa [List.forall₂_eq_eq_eq] at paired

namespace StackChange.Paired

theorem flip {left : StackChange α} {right : StackChange β} (paired : left.Paired related right) :
    right.Paired (flip related) left := by
  cases paired with
  | pushed item => exact .pushed item
  | popped item => exact .popped item

theorem eq {left right : StackChange α} (paired : left.Paired Eq right) : left = right := by
  cases paired with
  | pushed item => rw [item]
  | popped item => rw [item]

theorem refl (change : StackChange α) : change.Paired Eq change := by
  cases change with
  | pushed item => exact .pushed rfl
  | popped item => exact .popped rfl

end StackChange.Paired

namespace Stack.Paired

variable {left : Stack α} {right : Stack β}

theorem flip (paired : left.Paired related right) : right.Paired (flip related) left :=
  ⟨forall₂_flip paired.items, (forall₂_flip paired.log).imp fun _ _ change => change.flip,
    paired.marks.symm⟩

theorem empty : Stack.Paired related {} {} := ⟨.nil, .nil, rfl⟩

theorem refl (stack : Stack α) : stack.Paired Eq stack :=
  ⟨List.forall₂_refl _, List.forall₂_same.mpr fun change _ => .refl change, rfl⟩

/-- Where items correspond only to themselves, so do stacks. -/
theorem eq {left right : Stack α} (paired : left.Paired Eq right) : left = right := by
  obtain ⟨items, log, marks⟩ := paired
  have sameItems : left.items = right.items := eq_of_forall₂ items
  have sameLog : left.log = right.log := eq_of_forall₂ (log.imp fun _ _ change => change.eq)
  cases left
  cases right
  cases sameItems
  cases sameLog
  cases marks
  rfl

section Operations

variable (paired : left.Paired related right)

include paired

theorem size_eq : left.size = right.size := paired.items.length_eq

theorem peek? : Option.Rel related left.peek? right.peek? := by
  have top := paired.items
  unfold Stack.peek?
  generalize left.items = held at top ⊢
  generalize right.items = others at top ⊢
  cases top with
  | nil => exact .none
  | cons first _ => exact .some first

theorem record {change : StackChange α} {other : StackChange β}
    (changes : change.Paired related other) :
    (left.record change).Paired related (right.record other) := by
  unfold Stack.record
  rw [paired.marks]
  split
  · exact paired
  · exact ⟨paired.items, .cons changes paired.log, rfl⟩

theorem push {item : α} {other : β} (pushed : related item other) :
    (left.push item).Paired related (right.push other) := by
  have grown : Stack.Paired related { left with items := item :: left.items }
      { right with items := other :: right.items } :=
    ⟨.cons pushed paired.items, paired.log, paired.marks⟩
  exact grown.record (.pushed pushed)

theorem pop : left.pop.2.Paired related right.pop.2 := by
  obtain ⟨items, log, marks⟩ := left
  obtain ⟨others, also, same⟩ := right
  cases paired.items with
  | nil => exact paired
  | @cons _ _ held kept first rest =>
    have below : Stack.Paired related ⟨held, log, marks⟩ ⟨kept, also, same⟩ :=
      ⟨rest, paired.log, paired.marks⟩
    exact below.record (.popped first)

theorem popMany (count : Nat) : (left.popMany count).Paired related (right.popMany count) := by
  induction count generalizing left right with
  | zero => exact paired
  | succ count ih => exact ih paired.pop

theorem clear : left.clear.Paired related right.clear := by
  unfold Stack.clear
  rw [paired.size_eq]
  exact paired.popMany _

theorem slice? (start : Int) (stop : Option Int) :
    Option.Rel (Forall₂ related) (left.slice? start stop) (right.slice? start stop) := by
  unfold Stack.slice?
  rw [paired.size_eq]
  -- Both sides have the same bounds, and so they answer or both do not.
  cases place? right.size start with
  | none => exact .none
  | some first =>
    cases stop with
    | none => exact .some (List.forall₂_take _ (List.forall₂_drop _ paired.items))
    | some stop =>
      dsimp only
      cases place? right.size stop with
      | none => exact .none
      | some last => exact .some (List.forall₂_take _ (List.forall₂_drop _ paired.items))

theorem snapshot : left.snapshot.Paired related right.snapshot := by
  refine ⟨paired.items, paired.log, ?_⟩
  simp only [Stack.snapshot, paired.log.length_eq, paired.marks]

omit paired in
theorem undo {held : List α} {others : List β} {change : StackChange α} {other : StackChange β}
    (before : Forall₂ related held others) (changes : change.Paired related other) :
    Forall₂ related (Stack.undo held change) (Stack.undo others other) := by
  cases changes with
  | pushed _ =>
    cases before with
    | nil => exact .nil
    | cons _ rest => exact rest
  | popped item => exact .cons item before

theorem restore : AnswersAlike (Stack.Paired related) left.restore right.restore := by
  unfold Stack.restore
  rw [paired.marks]
  cases right.marks with
  | nil => exact .error _
  | cons mark marks =>
    dsimp only
    rw [paired.log.length_eq]
    refine .ok ⟨?_, List.forall₂_drop _ paired.log, rfl⟩
    exact List.rel_foldl (fun _ _ before _ _ changes => undo before changes) paired.items
      (List.forall₂_take _ paired.log)

theorem commit : AnswersAlike (Stack.Paired related) left.commit right.commit := by
  unfold Stack.commit
  rw [paired.marks]
  cases right.marks with
  | nil => exact .error _
  | cons mark marks =>
    refine .ok ⟨paired.items, ?_, rfl⟩
    dsimp only
    split
    · exact .nil
    · exact paired.log

end Operations

end Stack.Paired

end Peg
