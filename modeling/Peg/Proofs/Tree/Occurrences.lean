import Mathlib.Data.List.Basic
import Mathlib.Tactic.Choose
import Peg.Proofs.Tree.Nearest
import Peg.Proofs.Tree.Preorder

/-!
# Occurrences of nodes in a tree

The walks through a tree go by a list of what is still to be looked at. They are compared with two
things. One is the walk that calls itself for the children of a node, from left to right. The other
one knows of no walk: a node occurs at a place, which is told by the way down to it, and the same
node may occur at several places. In the order of words in a dictionary, a place stands in front of
those below it, and those in front of the places below later children.

## Main result

In a tree without absent children, a visit, a search for a rule and a search for the nearest matches
of some rules each come to what the walk that calls itself comes to, and that is what occurs at the
places in question, each place once and in their order.
-/
namespace Peg.Node

/-! ### Walks that call themselves -/

mutual

/-- A node, and then the walks through its children from left to right. -/
def preorder : Node → List Node
  | node@(terminal ..) => [node]
  | node@(seq _ items) => node :: preorderItems items
  | node@(rep _ items) => node :: preorderItems items
  | node@(choice _ _ child) => node :: preorderChild child
  | node@(opt _ child) => node :: preorderChild child
  | node@(predicate _ _ child) => node :: preorderChild child
  | node@(push _ child) => node :: preorderChild child
  | node@(rule _ _ child) => node :: preorderChild child

/-- The walk through a child. -/
def preorderChild : Option Node → List Node
  | none => []
  | some node => node.preorder

/-- The walks through some children, from left to right. -/
def preorderItems : List (Option Node) → List Node
  | [] => []
  | child :: rest => preorderChild child ++ preorderItems rest

end

mutual

/-- The nearest matches of the named rules below a node: from left to right, each child that is a
match, and what is nearest below each other child. -/
def outermost (names : List String) : Node → List Node
  | terminal .. => []
  | seq _ items | rep _ items => outermostItems names items
  | choice _ _ child | opt _ child | predicate _ _ child | push _ child | rule _ _ child =>
    outermostChild names child

/-- A child that is a match, or else what is nearest below it. -/
def outermostChild (names : List String) : Option Node → List Node
  | none => []
  | some node => if node.isRule names then [node] else node.outermost names

/-- What is nearest in some children, from left to right. -/
def outermostItems (names : List String) : List (Option Node) → List Node
  | [] => []
  | child :: rest => outermostChild names child ++ outermostItems names rest

end

theorem preorderItems_eq (children : List (Option Node)) :
    preorderItems children = (children.filterMap id).flatMap preorder := by
  induction children with
  | nil => rfl
  | cons child rest ih => cases child <;> simp [preorderItems, preorderChild, ih]

theorem preorder_eq (node : Node) : node.preorder = node :: node.childNodes.flatMap preorder := by
  rw [childNodes, ← preorderItems_eq]
  cases node with
  | terminal | seq | rep | choice | push => simp [preorder, children, preorderItems]
  | opt _ child | predicate _ _ child | rule _ _ child =>
    cases child <;> simp [preorder, children, preorderItems, preorderChild]

theorem outermostItems_eq (names : List String) (children : List (Option Node)) :
    outermostItems names children = (children.filterMap id).flatMap fun child =>
      if child.isRule names then [child] else child.outermost names := by
  induction children with
  | nil => rfl
  | cons child rest ih => cases child <;> simp [outermostItems, outermostChild, ih]

theorem outermost_eq (names : List String) (node : Node) :
    node.outermost names = node.childNodes.flatMap fun child =>
      if child.isRule names then [child] else child.outermost names := by
  rw [childNodes, ← outermostItems_eq]
  cases node with
  | terminal | seq | rep | choice | push => simp [outermost, children, outermostItems]
  | opt _ child | predicate _ _ child | rule _ _ child =>
    cases child <;> simp [outermost, children, outermostItems, outermostChild]

/-- What holds of a node as soon as it holds of its children holds of every node. -/
@[elab_as_elim]
theorem childInduction {holds : Node → Prop}
    (step : ∀ node : Node, (∀ child ∈ node.childNodes, holds child) → holds node) (node : Node) :
    holds node :=
  step node fun child _ => childInduction step child
termination_by node.size
decreasing_by
  have within := size_le_sizeAll ‹child ∈ node.childNodes›
  have := sizeAll_childNodes node
  omega

theorem visit_eq_preorder (node : Node) : node.visit = node.preorder := by
  induction node using childInduction with
  | step node ih => rw [visit_eq, preorder_eq, List.flatMap_congr ih]

theorem rulesWithin_eq_outermost (names : List String) (node : Node) :
    node.rulesWithin names = node.outermost names := by
  induction node using childInduction with
  | step node ih =>
    rw [rulesWithin_eq, outermost_eq]
    refine List.flatMap_congr fun child isChild => ?_
    by_cases isRule : child.isRule names = true
    · rw [nearest_of_isRule isRule, if_pos isRule]
    · rw [nearest_of_not_isRule isRule, if_neg isRule, ← ih child isChild, rulesWithin_eq]

/-! ### Places -/

/-- The node at a place below a node. The place is the way down to it: the index of a child, then
that of a child of this one, and so on. -/
def nodeAt? : Node → List Nat → Option Node
  | node, [] => some node
  | node, index :: place => node.children[index]?.join.bind fun child => child.nodeAt? place

theorem nodeAt?_cons_eq_some {node inner : Node} {index : Nat} {place : List Nat} :
    node.nodeAt? (index :: place) = some inner ↔
      ∃ child, node.children[index]? = some (some child) ∧ child.nodeAt? place = some inner := by
  simp only [nodeAt?, Option.bind_eq_some_iff, Option.join_eq_some_iff]

theorem nodeAt?_cons {node child : Node} {index : Nat}
    (isChild : node.children[index]? = some (some child)) (place : List Nat) :
    node.nodeAt? (index :: place) = child.nodeAt? place := by
  simp only [nodeAt?, isChild, Option.join_some, Option.bind_some]

theorem nodeAt?_append (node : Node) (place further : List Nat) :
    node.nodeAt? (place ++ further) =
      (node.nodeAt? place).bind fun inner => inner.nodeAt? further := by
  induction place generalizing node with
  | nil => rfl
  | cons index place ih => simp only [List.cons_append, nodeAt?, Option.bind_assoc, ih]

/-- The children that have a node, each with its index. -/
def branches (node : Node) : List (Node × Nat) :=
  node.children.zipIdx.filterMap fun child => child.1.map (·, child.2)

theorem mem_branches {node child : Node} {index : Nat} :
    (child, index) ∈ node.branches ↔ node.children[index]? = some (some child) := by
  simp [branches, List.mem_zipIdx_iff_getElem?]

theorem branches_map_fst (node : Node) : node.branches.map Prod.fst = node.childNodes := by
  rw [branches, List.map_filterMap, childNodes, ← List.zipIdx_map_fst 0 node.children,
    List.filterMap_map]
  simp [Function.comp_def]

theorem pairwise_branches (node : Node) : node.branches.Pairwise (·.2 < ·.2) := by
  have indices := List.pairwise_lt_range' (s := 0) (n := node.children.length) 1
  rw [← List.zipIdx_map_snd, List.pairwise_map] at indices
  refine List.pairwise_filterMap.mpr (indices.imp fun less => ?_)
  simp only [Option.map_eq_some_iff]
  rintro _ ⟨_, _, rfl⟩ _ ⟨_, _, rfl⟩
  exact less

/-! ### What occurs at some places -/

/-- The nodes are those at the chosen places below a root, each place once and in the order of the
places. -/
def Enumerates (root : Node) (chosen : List Nat → Prop) (nodes : List Node) : Prop :=
  ∃ places : List (List Nat), places.Pairwise (· < ·) ∧ (∀ place, place ∈ places ↔ chosen place) ∧
    places.map root.nodeAt? = nodes.map some

namespace Enumerates

variable {root : Node} {chosen other : List Nat → Prop} {nodes : List Node}

theorem congr (enumerates : Enumerates root chosen nodes)
    (same : ∀ place, chosen place ↔ other place) : Enumerates root other nodes := by
  obtain ⟨places, sorted, members, spelled⟩ := enumerates
  exact ⟨places, sorted, fun place => (members place).trans (same place), spelled⟩

theorem mem_iff (enumerates : Enumerates root chosen nodes) {inner : Node} :
    inner ∈ nodes ↔ ∃ place, chosen place ∧ root.nodeAt? place = some inner := by
  obtain ⟨places, _, members, spelled⟩ := enumerates
  have same : some inner ∈ nodes.map some ↔ inner ∈ nodes := by simp
  rw [← same, ← spelled, List.mem_map]
  simp only [members]

/-- Some of the nodes are kept, with their places. -/
theorem filter (enumerates : Enumerates root chosen nodes) (keep : Node → Bool) :
    Enumerates root
      (fun place => chosen place ∧ ∃ inner, root.nodeAt? place = some inner ∧ keep inner = true)
      (nodes.filter keep) := by
  obtain ⟨places, sorted, members, spelled⟩ := enumerates
  -- Whether a place is kept is told by what occurs there.
  refine ⟨places.filter fun place => (root.nodeAt? place).any keep, sorted.filter _, ?_, ?_⟩
  · intro place
    simp only [List.mem_filter, members, Option.any_eq_true]
  · have kept := congrArg (List.filter (Option.any keep)) spelled
    rw [List.filter_map, List.filter_map] at kept
    exact kept

theorem nothing : Enumerates root (fun _ => False) [] :=
  ⟨[], .nil, fun _ => List.mem_nil_iff _, rfl⟩

/-- The root stands in front of everything below it. -/
theorem root_cons (enumerates : Enumerates root chosen nodes) (below : ¬chosen []) :
    Enumerates root (fun place => place = [] ∨ chosen place) (root :: nodes) := by
  obtain ⟨places, sorted, members, spelled⟩ := enumerates
  refine ⟨[] :: places, List.pairwise_cons.mpr ⟨fun place member => ?_, sorted⟩, ?_, ?_⟩
  · cases place with
    | nil => exact absurd ((members []).mp member) below
    | cons index place => exact List.nil_lt_cons index place
  · intro place
    rw [List.mem_cons, members]
  · rw [List.map_cons, List.map_cons, spelled]
    rfl

/-- What is enumerated for each child, from left to right. -/
theorem children {found : Node → List Node} {below : Node → List Nat → Prop}
    (each : ∀ child ∈ root.childNodes, Enumerates child (below child) (found child)) :
    Enumerates root
      (fun place => ∃ index rest child, place = index :: rest ∧
        root.children[index]? = some (some child) ∧ below child rest)
      (root.childNodes.flatMap found) := by
  choose! places sorted members spelled using each
  have isChild {child : Node} {index : Nat} (branch : (child, index) ∈ root.branches) :
      child ∈ root.childNodes := by
    rw [← branches_map_fst]
    exact List.mem_map_of_mem branch
  refine ⟨root.branches.flatMap fun branch => (places branch.1).map (branch.2 :: ·), ?_, ?_, ?_⟩
  · -- Below one child the order is that of what follows, and otherwise that of the indices.
    refine List.pairwise_flatMap.mpr ⟨fun ⟨child, index⟩ branch => ?_, ?_⟩
    · exact List.pairwise_map.mpr ((sorted child (isChild branch)).imp fun less =>
        List.cons_lt_cons_iff.mpr (.inr ⟨rfl, less⟩))
    · refine root.pairwise_branches.imp fun less early isEarly late isLate => ?_
      obtain ⟨_, _, rfl⟩ := List.mem_map.mp isEarly
      obtain ⟨_, _, rfl⟩ := List.mem_map.mp isLate
      exact List.cons_lt_cons_iff.mpr (.inl less)
  · intro place
    simp only [List.mem_flatMap, List.mem_map, Prod.exists]
    constructor
    · rintro ⟨child, index, branch, rest, member, rfl⟩
      exact ⟨index, rest, child, rfl, mem_branches.mp branch,
        (members child (isChild branch) rest).mp member⟩
    · rintro ⟨index, rest, child, rfl, found, chosen⟩
      have branch := mem_branches.mpr found
      exact ⟨child, index, branch, rest, (members child (isChild branch) rest).mpr chosen, rfl⟩
  · rw [← branches_map_fst, List.flatMap_map, List.map_flatMap, List.map_flatMap]
    refine List.flatMap_congr fun ⟨child, index⟩ branch => ?_
    rw [← spelled child (isChild branch), List.map_map]
    exact List.map_congr_left fun rest _ => nodeAt?_cons (mem_branches.mp branch) rest

end Enumerates

/-- A walk in preorder comes once to each place there is. -/
theorem enumerates_preorder (root : Node) :
    root.Enumerates (fun place => (root.nodeAt? place).isSome = true) root.preorder := by
  induction root using childInduction with
  | step root ih =>
    rw [preorder_eq]
    refine ((Enumerates.children ih).root_cons ?_).congr fun place => ?_
    · rintro ⟨_, _, _, ⟨⟩, _⟩
    · cases place with
      | nil => simp [nodeAt?]
      | cons index place =>
        simp only [Option.isSome_iff_exists, nodeAt?_cons_eq_some]
        constructor
        · rintro (⟨⟨⟩⟩ | ⟨_, _, child, ⟨⟩, isChild, inner, found⟩)
          exact ⟨inner, child, isChild, found⟩
        · rintro ⟨inner, child, isChild, found⟩
          exact .inr ⟨index, place, child, rfl, isChild, inner, found⟩

/-! ### Matches of rules -/

/-- At a place below a root occurs the match of one of the rules. -/
def HasMatch (names : List String) (root : Node) (place : List Nat) : Prop :=
  ∃ name ∈ names, ∃ span child, root.nodeAt? place = some (.rule name span child)

/-- At a place below a root, other than that of the root, occurs the match of one of the rules, and
none occurs between the root and this place. -/
structure HasNearest (names : List String) (root : Node) (place : List Nat) : Prop where
  below : place ≠ []
  isMatch : root.HasMatch names place
  between : ∀ shorter, shorter <+: place → shorter ≠ [] → shorter ≠ place →
    ¬root.HasMatch names shorter

section Matches

variable {names : List String} {root : Node}

theorem isRule_iff {node : Node} :
    node.isRule names = true ↔ ∃ name ∈ names, ∃ span child, node = .rule name span child := by
  cases node <;> simp [isRule]

theorem hasMatch_iff {place : List Nat} : root.HasMatch names place ↔
    ∃ inner, root.nodeAt? place = some inner ∧ inner.isRule names = true := by
  simp only [isRule_iff, HasMatch]
  constructor
  · rintro ⟨name, named, span, child, found⟩
    exact ⟨_, found, name, named, span, child, rfl⟩
  · rintro ⟨_, found, name, named, span, child, rfl⟩
    exact ⟨name, named, span, child, found⟩

theorem hasMatch_nil : root.HasMatch names [] ↔ root.isRule names = true := by
  simp [hasMatch_iff, nodeAt?]

variable {child : Node} {index : Nat} (isChild : root.children[index]? = some (some child))

include isChild

theorem hasMatch_cons (place : List Nat) :
    root.HasMatch names (index :: place) ↔ child.HasMatch names place := by
  rw [HasMatch, HasMatch, nodeAt?_cons isChild]

theorem hasNearest_cons (place : List Nat) : root.HasNearest names (index :: place) ↔
    child.HasMatch names place ∧
      ∀ shorter, shorter <+: place → shorter ≠ place → ¬child.HasMatch names shorter := by
  constructor
  · intro nearest
    refine ⟨(hasMatch_cons isChild place).mp nearest.isMatch, fun shorter front differs found => ?_⟩
    -- What lies between the child and the place lies between the root and the place as well.
    refine nearest.between (index :: shorter) (List.cons_prefix_cons.mpr ⟨rfl, front⟩)
      (List.cons_ne_nil _ _) (by simpa using differs) ?_
    exact (hasMatch_cons isChild shorter).mpr found
  · rintro ⟨isMatch, between⟩
    refine ⟨List.cons_ne_nil _ _, (hasMatch_cons isChild place).mpr isMatch, ?_⟩
    intro shorter front begun differs found
    rcases List.prefix_cons_iff.mp front with rfl | ⟨rest, rfl, early⟩
    · exact begun rfl
    · exact between rest early (by simpa using differs) ((hasMatch_cons isChild rest).mp found)

/-- A child that is a match is nearest, and nothing below it is. -/
theorem hasNearest_cons_of_isRule (isRule : child.isRule names = true) (place : List Nat) :
    root.HasNearest names (index :: place) ↔ place = [] := by
  rw [hasNearest_cons isChild]
  constructor
  · rintro ⟨_, between⟩
    by_contra further
    exact between [] List.nil_prefix (Ne.symm further) (hasMatch_nil.mpr isRule)
  · rintro rfl
    refine ⟨hasMatch_nil.mpr isRule, fun shorter front differs => ?_⟩
    exact absurd (List.prefix_nil.mp front) differs

/-- What is nearest below any other child is nearest. -/
theorem hasNearest_cons_of_not_isRule (other : ¬child.isRule names = true) (place : List Nat) :
    root.HasNearest names (index :: place) ↔ child.HasNearest names place := by
  rw [hasNearest_cons isChild]
  constructor
  · rintro ⟨isMatch, between⟩
    refine ⟨?_, isMatch, fun shorter front _ differs => between shorter front differs⟩
    rintro rfl
    exact other (hasMatch_nil.mp isMatch)
  · intro nearest
    refine ⟨nearest.isMatch, fun shorter front differs found => ?_⟩
    cases shorter with
    | nil => exact other (hasMatch_nil.mp found)
    | cons => exact nearest.between _ front (List.cons_ne_nil _ _) differs found

end Matches

/-- The walk that does not look into matches comes once to each that is nearest. -/
theorem enumerates_outermost (names : List String) (root : Node) :
    root.Enumerates (root.HasNearest names) (root.outermost names) := by
  induction root using childInduction with
  | step root ih =>
    rw [outermost_eq]
    -- A child counts by itself if it is a match, and else by what is nearest below it.
    have each : ∀ child ∈ root.childNodes,
        child.Enumerates
          (fun rest => if child.isRule names then rest = [] else child.HasNearest names rest)
          (if child.isRule names then [child] else child.outermost names) := by
      intro child isChild
      by_cases isRule : child.isRule names = true
      · simp only [isRule, if_true]
        exact (Enumerates.nothing.root_cons not_false).congr fun place => or_iff_left not_false
      · simp only [isRule]
        exact ih child isChild
    have chosen {index : Nat} {child : Node} (isChild : root.children[index]? = some (some child))
        (rest : List Nat) : root.HasNearest names (index :: rest) ↔
          if child.isRule names then rest = [] else child.HasNearest names rest := by
      split
      next isRule => exact hasNearest_cons_of_isRule isChild isRule rest
      next other => exact hasNearest_cons_of_not_isRule isChild other rest
    refine (Enumerates.children each).congr fun place => ?_
    constructor
    · rintro ⟨index, rest, child, rfl, isChild, nearest⟩
      exact (chosen isChild rest).mpr nearest
    · intro nearest
      cases place with
      | nil => exact absurd rfl nearest.below
      | cons index rest =>
        obtain ⟨inner, found, _⟩ := hasMatch_iff.mp nearest.isMatch
        obtain ⟨child, isChild, _⟩ := nodeAt?_cons_eq_some.mp found
        exact ⟨index, rest, child, rfl, isChild, (chosen isChild rest).mp nearest⟩

/-! ### Trees without absent children -/

/-- No node of the tree has an absent child. -/
def Whole (tree : Node) : Prop :=
  ∀ place inner, tree.nodeAt? place = some inner → ∀ child ∈ inner.children, child.isSome = true

theorem isWhole_iff {tree : Node} : tree.isWhole = true ↔ tree.Whole := by
  -- The visit by which a tree is looked through comes to every place.
  have visited (inner : Node) : inner ∈ tree.visit ↔ ∃ place, tree.nodeAt? place = some inner := by
    rw [visit_eq_preorder, tree.enumerates_preorder.mem_iff]
    refine exists_congr fun place => and_iff_right_of_imp fun found => ?_
    rw [found]
    rfl
  simp only [isWhole, List.all_eq_true, visited]
  exact ⟨fun all place inner found => all inner ⟨place, found⟩,
    fun all inner ⟨place, found⟩ => all place inner found⟩

theorem Whole.nodeAt? {tree node : Node} {place : List Nat} (whole : tree.Whole)
    (found : tree.nodeAt? place = some node) : node.Whole := by
  intro further inner deeper
  refine whole (place ++ further) inner ?_
  rw [nodeAt?_append, found]
  exact deeper

/-! ### Main result -/

/-- Take any node of a tree without absent children. A visit goes through what a walk in preorder
goes through that calls itself for the children, which is what occurs at the places below the node
and at its own. The search for a rule is not refused and finds the matches of that rule among them.
The nearest matches of some rules below the node are those that a walk finds that calls itself for
children which are no matches; these occur at just the places below the node at which there is a
match and between which and the node there is none. All are found in the order of their places and
at each place once. -/
theorem walks_enumerate_occurrences {tree node : Node} {place : List Nat} (whole : tree.Whole)
    (inside : tree.nodeAt? place = some node) :
    (node.visit = node.preorder ∧
        node.Enumerates (fun below => (node.nodeAt? below).isSome = true) node.visit) ∧
      (∀ name, node.search name = .ok (node.preorder.filter (isRule [name])) ∧
        node.Enumerates (node.HasMatch [name]) (node.preorder.filter (isRule [name]))) ∧
      ∀ names, node.rulesWithin names = node.outermost names ∧
        node.Enumerates (node.HasNearest names) (node.rulesWithin names) := by
  have present : node.isWhole = true := isWhole_iff.mpr (whole.nodeAt? inside)
  refine ⟨⟨node.visit_eq_preorder, ?_⟩, fun name => ⟨?_, ?_⟩, fun names => ⟨?_, ?_⟩⟩
  · rw [visit_eq_preorder]
    exact node.enumerates_preorder
  · rw [search, if_pos present, find, visit_eq_preorder]
  · refine (node.enumerates_preorder.filter (isRule [name])).congr fun below => ?_
    -- At a place with a match there is a node.
    rw [hasMatch_iff, and_iff_right_of_imp]
    rintro ⟨inner, found, _⟩
    rw [found]
    rfl
  · exact rulesWithin_eq_outermost names node
  · rw [rulesWithin_eq_outermost]
    exact enumerates_outermost names node

/-- A list in which the same list occurs twice, the first time inside another one. It is found at
both places, and only the second time it is nearest. -/
theorem lists_found_where_they_occur :
    let blank : Span := ⟨⟨0, #[]⟩, 0, 0, by omega⟩
    let inner : Node := .rule "list" blank none
    let middle : Node := .rule "list" blank (some inner)
    let outer : Node := .rule "list" blank (some (.seq blank [some middle, some inner]))
    let tree : Node := .opt blank (some outer)
    tree.Whole ∧ tree.nodeAt? [0] = some outer ∧
      outer.search "list" = .ok [outer, middle, inner, inner] ∧
      outer.rulesWithin ["list"] = [middle, inner] := by
  intro blank inner middle outer tree
  have whole : tree.Whole := by
    rw [← isWhole_iff, isWhole, visit_eq_preorder]
    rfl
  have inside : tree.nodeAt? [0] = some outer := rfl
  obtain ⟨-, searched, nearest⟩ := walks_enumerate_occurrences whole inside
  exact ⟨whole, inside, (searched "list").1, (nearest ["list"]).1⟩

end Peg.Node
