/-!
Indices of lists, and lengths of texts. An index is a signed word of 64 bits, so that a number may
be too large to be one.
-/

namespace Peg

/-- The largest index. -/
def maxIndex : Int := 9223372036854775807

/-- Whether a number is an index. -/
def isIndex (number : Int) : Bool := -maxIndex - 1 ≤ number && number ≤ maxIndex

/-- The wording for a number that is no index. -/
def notIndexMessage : String := "cannot fit 'int' into an index-sized integer"

/-- The length from which on there is no room for a text. -/
def roomLimit : Int := 1099511627776

end Peg
