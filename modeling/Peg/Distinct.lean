/-!
Lists without repetition, in the order of first occurrence.
-/

namespace Peg

variable {α : Type} [DecidableEq α]

/-- Appends an element unless the list has it already. -/
def insertNew (list : List α) (element : α) : List α :=
  if element ∈ list then list else list ++ [element]

/-- The elements of a list in the order of their first occurrence. -/
def distinct (list : List α) : List α := list.foldl insertNew []

end Peg
