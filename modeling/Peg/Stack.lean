import Peg.Index
import Peg.Text.LiteralForm

/-!
The backreference stack: a last-in first-out list with nested snapshots. While a snapshot is open,
every push and pop is logged, so that the snapshot can be restored by undoing the changes made
since; nothing is copied. Snapshots are resolved in the reverse order of their opening.
-/

namespace Peg

/-- A change of a stack that a snapshot may have to undo. -/
inductive StackChange (α : Type) where
  /-- An item was put on top. -/
  | pushed (item : α)
  /-- An item was taken from the top. -/
  | popped (item : α)

/-- A stack whose changes can be undone. -/
structure Stack (α : Type) where
  /-- The items, top first. -/
  items : List α := []
  /-- The changes since the outermost open snapshot, latest first. -/
  log : List (StackChange α) := []
  /-- For each open snapshot, innermost first, the length of the log when it was opened. -/
  marks : List Nat := []

/-- What cannot be done with a stack. -/
inductive StackError where
  /-- There is no snapshot to restore. -/
  | nothingToRestore
  /-- There is no snapshot to clear. -/
  | nothingToClear
  /-- There is no item at the index. -/
  | indexOutOfRange
  /-- The number is no index. -/
  | notIndex
deriving DecidableEq

/-- The wording of an error. -/
def StackError.message : StackError → String
  | nothingToRestore => "restore() called without a matching snapshot()"
  | nothingToClear => "clear_snapshot() called without a matching snapshot()"
  | indexOutOfRange => "list index out of range"
  | notIndex => notIndexMessage

namespace Stack

variable {α : Type}

/-- A stack of the given items, bottom first, with no snapshot open. -/
def ofList (items : List α) : Stack α := { items := items.reverse }

/-- The items, bottom first. -/
def toList (stack : Stack α) : List α := stack.items.reverse

/-- The number of items. -/
def size (stack : Stack α) : Nat := stack.items.length

/-- Whether there is no item. -/
def isEmpty (stack : Stack α) : Bool := stack.items.isEmpty

/-- Notes a change if a snapshot is open. -/
def record (stack : Stack α) (change : StackChange α) : Stack α :=
  if stack.marks.isEmpty then stack else { stack with log := change :: stack.log }

/-- Puts an item on top. -/
def push (stack : Stack α) (item : α) : Stack α :=
  { stack with items := item :: stack.items }.record (.pushed item)

/-- The item on top. -/
def peek? (stack : Stack α) : Option α := stack.items.head?

/-- Takes the item on top, if there is one. -/
def pop (stack : Stack α) : Option α × Stack α :=
  match stack.items with
  | [] => (none, stack)
  | item :: rest => (some item, { stack with items := rest }.record (.popped item))

/-- Takes a number of items from the top, as many as there are. -/
def popMany (stack : Stack α) : Nat → Stack α
  | 0 => stack
  | count + 1 => stack.pop.2.popMany count

/-- Takes every item from the top. -/
def clear (stack : Stack α) : Stack α := stack.popMany stack.size

/-- The place, counted from the top, that an index stands for. A negative index counts from the
bottom. An index more than the size away from either end stands for nothing. -/
def place? (size : Nat) (index : Int) : Option Nat :=
  if index > size then none
  else if index ≥ 0 then some index.toNat
  else if index + size ≥ 0 then some (index + size).toNat
  else none

/-- The items from one index up to another, top first. Without a second index the slice goes
through the bottom. Nothing is answered if an index stands for nothing. -/
def slice? (stack : Stack α) (start : Int) (stop : Option Int) : Option (List α) := do
  let first ← place? stack.size start
  let last ← match stop with
    | none => some stack.size
    | some stop => place? stack.size stop
  return (stack.items.drop first).take (last - first)

/-- The item at an index counted from the bottom, or, if negative, from beyond the top. -/
def get (stack : Stack α) (index : Int) : Except StackError α :=
  if !isIndex index then .error .notIndex
  else
    let place := if index < 0 then index + stack.size else index
    if place < 0 then .error .indexOutOfRange
    else match stack.toList[place.toNat]? with
      | some item => .ok item
      | none => .error .indexOutOfRange

/-- The form in which a message shows a stack, given the forms of its items. -/
def form (itemForm : α → String) (stack : Stack α) : String :=
  s!"Stack({Text.listForm (stack.toList.map itemForm)})"

/-- Opens a snapshot of the items as they are. -/
def snapshot (stack : Stack α) : Stack α :=
  { stack with marks := stack.log.length :: stack.marks }

/-- Takes one change back. -/
def undo (items : List α) : StackChange α → List α
  | .pushed _ => items.tail
  | .popped item => item :: items

/-- Goes back to the innermost open snapshot and closes it. -/
def restore (stack : Stack α) : Except StackError (Stack α) :=
  match stack.marks with
  | [] => .error .nothingToRestore
  | mark :: marks =>
    let count := stack.log.length - mark
    .ok { items := (stack.log.take count).foldl undo stack.items
          log := stack.log.drop count
          marks := marks }

/-- Closes the innermost open snapshot and keeps the items. The log stays as long as an outer
snapshot may need it. -/
def commit (stack : Stack α) : Except StackError (Stack α) :=
  match stack.marks with
  | [] => .error .nothingToClear
  | _ :: marks =>
    .ok { stack with log := if marks.isEmpty then [] else stack.log, marks := marks }

end Stack

end Peg
