import Peg.Node.Walk

/-!
# Trees in preorder

The walk through a tree works on a list of nodes that are still to be looked at. What it goes
through is the root, followed by what it goes through in each of the subtrees in turn; and so a
search for the matches of a rule finds the root, if that is one, and what it finds in the subtrees.
-/
namespace Peg.Node

/-- What was found before stays in front of what is found. -/
theorem visitFrom_append_left (before found : Array Node) (nodes : List Node) :
    visitFrom (before ++ found) nodes = before ++ visitFrom found nodes := by
  fun_induction visitFrom found nodes with
  | case1 found => rw [visitFrom]
  | case2 found node pending ih => rw [visitFrom, ← Array.append_push, ih]

/-- Some nodes are gone through one after the other. -/
theorem visitFrom_append_right (found : Array Node) (early late : List Node) :
    visitFrom found (early ++ late) = visitFrom found early ++ visitFrom #[] late := by
  fun_induction visitFrom found early with
  | case1 found =>
    have kept : visitFrom (found ++ #[]) late = _ := visitFrom_append_left found #[] late
    rwa [Array.append_empty] at kept
  | case2 found node pending ih => rw [List.cons_append, visitFrom, ← List.append_assoc, ih]

theorem visitFrom_toList (nodes : List Node) :
    (visitFrom #[] nodes).toList = nodes.flatMap visit := by
  induction nodes with
  | nil => rw [visitFrom, List.flatMap_nil]
  | cons node rest ih =>
    rw [← List.singleton_append, visitFrom_append_right, Array.toList_append, ih,
      List.singleton_append, List.flatMap_cons, visit]

/-- A tree in preorder. -/
theorem visit_eq (node : Node) : node.visit = node :: node.childNodes.flatMap visit := by
  have started : visitFrom #[node] node.childNodes = #[node] ++ visitFrom #[] node.childNodes :=
    visitFrom_append_left #[node] #[] node.childNodes
  rw [visit, visitFrom, List.append_nil, Array.push_empty, started, Array.toList_append,
    visitFrom_toList]
  rfl

variable {name : String}

theorem find_of_isRule {node : Node} (isRule : node.isRule [name] = true) :
    node.find name = node :: node.childNodes.flatMap (find · name) := by
  rw [find, visit_eq, List.filter_cons_of_pos isRule, List.filter_flatMap]
  rfl

theorem find_of_not_isRule {node : Node} (other : ¬node.isRule [name] = true) :
    node.find name = node.childNodes.flatMap (find · name) := by
  rw [find, visit_eq, List.filter_cons_of_neg other, List.filter_flatMap]
  rfl

end Peg.Node
