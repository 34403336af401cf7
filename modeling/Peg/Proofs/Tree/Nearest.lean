import Peg.Node.Walk

/-!
# The nearest matches of rules

The search for the nearest matches of some rules works on a list of nodes that are still to be
looked at. What it finds in a tree is put together from what it finds in the subtrees: the match of
one of the rules is found itself, and any other node adds nothing to what is found below it.
-/
namespace Peg.Node

/-- The nearest matches of the named rules in a tree, where the root may be one. -/
def nearest (names : List String) (node : Node) : List Node := (rulesFrom names #[] [node]).toList

variable {names : List String}

/-- What was found before stays in front of what is found. -/
theorem rulesFrom_append_left (before found : Array Node) (nodes : List Node) :
    rulesFrom names (before ++ found) nodes = before ++ rulesFrom names found nodes := by
  fun_induction rulesFrom names found nodes with
  | case1 found => rw [rulesFrom]
  | case2 found node pending isRule ih => rw [rulesFrom, if_pos isRule, ← Array.append_push, ih]
  | case3 found node pending other ih => rw [rulesFrom, if_neg other, ih]

/-- Some nodes are searched one after the other. -/
theorem rulesFrom_append_right (found : Array Node) (early late : List Node) :
    rulesFrom names found (early ++ late) =
      rulesFrom names found early ++ rulesFrom names #[] late := by
  fun_induction rulesFrom names found early with
  | case1 found =>
    have kept : rulesFrom names (found ++ #[]) late = _ := rulesFrom_append_left found #[] late
    rwa [Array.append_empty] at kept
  | case2 found node pending isRule ih => rw [List.cons_append, rulesFrom, if_pos isRule, ih]
  | case3 found node pending other ih =>
    rw [List.cons_append, rulesFrom, if_neg other, ← List.append_assoc, ih]

theorem rulesFrom_toList (nodes : List Node) :
    (rulesFrom names #[] nodes).toList = nodes.flatMap (nearest names) := by
  induction nodes with
  | nil => rw [rulesFrom, List.flatMap_nil]
  | cons node rest ih =>
    rw [← List.singleton_append, rulesFrom_append_right, Array.toList_append, ih,
      List.singleton_append, List.flatMap_cons, nearest]

theorem nearest_of_isRule {node : Node} (isRule : node.isRule names = true) :
    node.nearest names = [node] := by
  rw [nearest, rulesFrom, if_pos isRule, rulesFrom]
  rfl

theorem rulesWithin_eq (node : Node) :
    node.rulesWithin names = node.childNodes.flatMap (nearest names) :=
  rulesFrom_toList node.childNodes

theorem nearest_of_not_isRule {node : Node} (other : ¬node.isRule names = true) :
    node.nearest names = node.childNodes.flatMap (nearest names) := by
  rw [nearest, rulesFrom, if_neg other, List.append_nil, rulesFrom_toList]

end Peg.Node
