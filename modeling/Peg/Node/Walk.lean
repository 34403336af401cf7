import Peg.Datum
import Peg.Node.Basic

/-!
Walks through a syntax tree. They keep the nodes that are still to be looked at in a list of their
own instead of calling themselves, so that the depth of a tree does not matter. The plain walks pass
over absent children; `search` and `texts` refuse a tree with one, as an absent child has neither
children nor a text.
-/

namespace Peg

/-- Why a tree cannot be walked. -/
inductive WalkError where
  /-- The text of an absent child is asked for. -/
  | textOfAbsent
  /-- The children of an absent child are asked for. -/
  | childrenOfAbsent
deriving DecidableEq

/-- The wording of an error. -/
def WalkError.message : WalkError → String
  | textOfAbsent => lacking Datum.null.typeName "text"
  | childrenOfAbsent => lacking Datum.null.typeName "children"

namespace Node

/-- Adds to `found` the given nodes, each followed by its descendants. -/
def visitFrom (found : Array Node) : List Node → Array Node
  | [] => found
  | node :: pending => visitFrom (found.push node) (node.childNodes ++ pending)
termination_by pending => sizeAll pending
decreasing_by
  have := sizeAll_childNodes node
  simp only [sizeAll, sizeAll_append]
  omega

/-- A node and all its descendants, depth first and from left to right. -/
def visit (node : Node) : List Node := (visitFrom #[] [node]).toList

/-- Whether a node is the match of a rule with one of the names. -/
def isRule (names : List String) : Node → Bool
  | rule name _ _ => names.contains name
  | _ => false

/-- The matches of a rule in a tree, its root included. -/
def find (node : Node) (name : String) : List Node := node.visit.filter (isRule [name])

/-- Whether no node of a tree has an absent child. -/
def isWhole (node : Node) : Bool :=
  node.visit.all fun inner => inner.children.all Option.isSome

/-- The matches of a rule in a tree, all nodes of which are asked for their children. -/
def search (node : Node) (name : String) : Except WalkError (List Node) :=
  if node.isWhole then .ok (node.find name) else .error .childrenOfAbsent

/-- The texts of all nodes of a tree, depth first and from left to right. -/
def texts : Option Node → Except WalkError (List String)
  | none => .error .textOfAbsent
  | some root =>
    if root.isWhole then .ok (root.visit.map text) else .error .textOfAbsent

/-- Adds to `found` the nearest matches of the named rules among the given nodes and below. -/
def rulesFrom (names : List String) (found : Array Node) : List Node → Array Node
  | [] => found
  | node :: pending =>
    if node.isRule names then rulesFrom names (found.push node) pending
    else rulesFrom names found (node.childNodes ++ pending)
termination_by pending => sizeAll pending
decreasing_by
  all_goals have := sizeAll_childNodes node
  all_goals simp only [sizeAll, sizeAll_append]
  all_goals omega

/-- The nearest matches of the named rules below a node. -/
def rulesWithin (node : Node) (names : List String) : List Node :=
  (rulesFrom names #[] node.childNodes).toList

theorem size_le_sizeAll {node : Node} {nodes : List Node} (h : node ∈ nodes) :
    node.size ≤ sizeAll nodes := by
  induction nodes with
  | nil => cases h
  | cons first rest ih =>
    simp only [sizeAll]
    cases h with
    | head => omega
    | tail _ h => have := ih h; omega

end Node

end Peg
