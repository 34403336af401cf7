import Peg.Decimal.Binary64

/-!
JSON values. A string is a list of code points, since an escape may stand for half of a surrogate
pair. An object keeps its members in the order in which their names first occurred.
-/

namespace Peg.Json

/-- A JSON value. -/
inductive Value where
  /-- The absent value. -/
  | null
  /-- A truth value. -/
  | bool (value : Bool)
  /-- A number without fraction and exponent. -/
  | int (value : Int)
  /-- A number with a fraction or an exponent. -/
  | float (value : Decimal.Binary64)
  /-- A string, by its code points. -/
  | str (points : List Nat)
  /-- An array. -/
  | array (items : List Value)
  /-- An object, by its members. -/
  | object (members : List (List Nat × Value))

/-- Sets a member. A member that is there already keeps its place and takes the new value. -/
def setMember (members : List (List Nat × Value)) (name : List Nat) (value : Value) :
    List (List Nat × Value) :=
  match members with
  | [] => [(name, value)]
  | member :: rest =>
    if member.1 = name then (name, value) :: rest else member :: setMember rest name value

end Peg.Json
