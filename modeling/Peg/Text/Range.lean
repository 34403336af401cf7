/-!
Sets of characters given as ascending ranges of code points, the form in which the tables of this
library list a Unicode property.
-/

namespace Peg.Text

/-- Whether one of the ranges, both ends included, holds the code point. -/
def inRanges (ranges : Array (Nat × Nat)) (code : Nat) : Bool :=
  ranges.any fun range => range.1 ≤ code && code ≤ range.2

end Peg.Text
