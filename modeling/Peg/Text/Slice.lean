/-!
Slices with signed bounds. A negative bound counts from the end of the sequence, and a bound that
lies outside the sequence stands for its nearest end, so every pair of bounds has a slice.
-/

namespace Peg.Text

/-- The place in a sequence of `size` elements that a signed bound stands for. -/
def clampBound (size : Nat) (bound : Int) : Nat :=
  if bound < 0 then (bound + size).toNat else min bound.toNat size

/-- The elements from one bound up to the other, the latter excluded. -/
def slice (chars : Array Char) (start stop : Int) : String :=
  String.ofList
    (chars.extract (clampBound chars.size start) (clampBound chars.size stop)).toList

theorem clampBound_of_le {size place : Nat} (h : place ≤ size) :
    clampBound size (place : Int) = place := by
  unfold clampBound
  split <;> omega

end Peg.Text
