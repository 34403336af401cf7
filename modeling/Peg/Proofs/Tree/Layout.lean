import Mathlib.Data.List.Chain
import Peg.Node.Walk
import Peg.Proofs.Grammar.Parts
import Peg.Proofs.Tree.Tiling

/-!
# How the nodes of a tree lie

The span of a node and those of its children fit together. Where ignored text is not asked for
explicitly, no child is absent, and the children of a sequence or of a repetition stand in the order
of the text with nothing but ignored text between them.

How a match is put together says the same of positions. What is said here is read off it for the
nodes alone, and of every node of the tree.
-/
namespace Peg

namespace Node

/-- Between the two nodes, in this order, stands nothing but ignored text. -/
def Adjoins (env : Env) (first second : Node) : Prop :=
  ∃ here stop, Ignorable env here stop ∧ first.span.source = here.input ∧
    second.span.source = here.input ∧ first.span.stop = here.offset ∧
    second.span.start = stop.offset

/-- The first of some nodes starts where the span does, and between each and the next stands nothing
but ignored text. -/
structure InOrder (env : Env) (span : Span) (nodes : List Node) : Prop where
  first : ∀ node ∈ nodes.head?, node.span.source = span.source ∧ node.span.start = span.start
  between : nodes.IsChain (Adjoins env)

/-- From the last of some nodes to the end of the span stands nothing but ignored text. -/
def Trails (env : Env) (span : Span) (nodes : List Node) : Prop :=
  ∀ node ∈ nodes.getLast?, ∃ here stop, Ignorable env here stop ∧ span.source = here.input ∧
    node.span.stop = here.offset ∧ span.stop = stop.offset

/-- The span of a node and those of its children fit together. -/
def Fits (env : Env) : Node → Prop
  | terminal .. => True
  | seq span items => ∃ nodes : List Node, items = nodes.map some ∧ nodes ≠ [] ∧
      InOrder env span nodes ∧ ∀ node ∈ nodes.getLast?, node.span.stop = span.stop
  | rep span items => ∃ nodes : List Node, items = nodes.map some ∧
      InOrder env span nodes ∧ Trails env span nodes ∧ (nodes = [] → span.stop = span.start)
  | choice span _ child | push span child => ∃ node : Node, child = some node ∧ node.span = span
  | opt span child =>
    (child = none → span.stop = span.start) ∧ ∀ node : Node, child = some node → node.span = span
  | predicate span .. => span.stop = span.start
  | rule _ span child => ∀ node : Node, child = some node → node.span = span

/-! ### Nodes of a tree -/

/-- A node has another one as a child. -/
def HasChild (node child : Node) : Prop := some child ∈ node.children

/-- A visit meets what was found before, the given nodes and all that is below them. -/
theorem mem_visitFrom {found : Array Node} {pending : List Node} {inner : Node} :
    inner ∈ visitFrom found pending ↔
      inner ∈ found ∨ ∃ node ∈ pending, Relation.ReflTransGen HasChild node inner := by
  fun_induction visitFrom found pending with
  | case1 found => simp
  | case2 found node pending ih =>
    -- What is below a node is the node itself or below one of its children.
    have below : Relation.ReflTransGen HasChild node inner ↔
        inner = node ∨ ∃ child ∈ node.childNodes, Relation.ReflTransGen HasChild child inner := by
      rw [Relation.ReflTransGen.cases_head_iff]
      simp only [HasChild, childNodes, List.mem_filterMap, id, exists_eq_right, eq_comm]
    rw [ih, Array.mem_push, List.exists_mem_cons_iff, below]
    simp only [List.mem_append, or_and_right, exists_or, or_assoc]

theorem mem_visit {node inner : Node} :
    inner ∈ node.visit ↔ Relation.ReflTransGen HasChild node inner := by
  rw [visit, Array.mem_toList_iff, mem_visitFrom]
  simp

/-- What holds of a node and of the trees of its children holds of its tree. -/
theorem forall_mem_visit {holds : Node → Prop} {node : Node} (root : holds node)
    (below : ∀ child, some child ∈ node.children → ∀ inner ∈ child.visit, holds inner) :
    ∀ inner ∈ node.visit, holds inner := by
  intro inner among
  rcases (mem_visit.mp among).cases_head with rfl | ⟨child, isChild, descends⟩
  · exact root
  · exact below child isChild inner (mem_visit.mpr descends)

end Node

/-! ### Reading the layout off a match -/

variable {env : Env} {start here stop : Position} {atomic : Bool}

theorem Span.Covers.unique {span other : Span} (covers : span.Covers here stop)
    (also : other.Covers here stop) : span = other := by
  obtain ⟨source, low, high, ordered⟩ := span
  obtain ⟨otherSource, otherLow, otherHigh, otherOrdered⟩ := other
  have sources : source = otherSource := covers.source_eq.trans also.source_eq.symm
  have lows : low = otherLow := covers.start_eq.trans also.start_eq.symm
  have highs : high = otherHigh := covers.stop_eq.trans also.stop_eq.symm
  subst sources lows highs
  rfl

/-- What the nodes of a row have to do with where it starts and where it ends. -/
structure Lined (env : Env) (start : Position) (nodes : List Node) (here : Position) : Prop where
  inside : ∀ node ∈ nodes, node.span.source = start.input
  first : ∀ node ∈ nodes.head?, node.span.start = start.offset
  between : nodes.IsChain (Node.Adjoins env)
  last : ∀ node ∈ nodes.getLast?, node.span.stop = here.offset
  empty : nodes = [] → here = start

theorem Lined.inOrder {nodes : List Node} {span : Span} (lined : Lined env start nodes here)
    (covers : span.Covers start stop) : Node.InOrder env span nodes := by
  refine ⟨fun node isFirst => ?_, lined.between⟩
  have source := lined.inside node (List.mem_of_head? isFirst)
  exact ⟨source.trans covers.source_eq.symm, (lined.first node isFirst).trans covers.start_eq.symm⟩

/-- Where each match of a row has a node, the nodes stand in line. -/
theorem Row.lined {tiles : List Tile} (row : Row env atomic start tiles here)
    (present : ∀ tile ∈ tiles, ∃ node, tile.node = some node ∧
      node.span.Covers tile.start tile.stop) :
    ∃ nodes, tiles.map Tile.node = nodes.map some ∧ Lined env start nodes here := by
  induction row with
  | nil => exact ⟨[], rfl, ⟨nofun, nofun, .nil, nofun, fun _ => rfl⟩⟩
  | @snoc tiles here tile row gap ih =>
    rw [List.forall_mem_append, List.forall_mem_singleton] at present
    obtain ⟨earlier, node, named, covers⟩ := present
    obtain ⟨nodes, names, lined⟩ := ih earlier
    have forward : ∀ tile ∈ tiles, tile.start.Precedes tile.stop := by
      intro tile among
      obtain ⟨_, _, covers⟩ := earlier tile among
      exact covers.toPrecedes
    have reached : here.input = start.input := (row.precedes forward).input_eq
    have source : node.span.source = start.input :=
      covers.source_eq.trans (gap.ignorable.precedes.input_eq.trans reached)
    refine ⟨nodes ++ [node], ?_, ?_⟩
    · rw [List.map_append, List.map_append, names, List.map_singleton, List.map_singleton, named]
    · refine ⟨?_, ?_, ?_, ?_, ?_⟩
      · rw [List.forall_mem_append, List.forall_mem_singleton]
        exact ⟨lined.inside, source⟩
      · cases nodes with
        | nil =>
          -- In front of the first match nothing is skipped.
          have none : tiles = [] := List.map_eq_nil_iff.mp names
          subst none
          rintro _ ⟨⟩
          rw [covers.start_eq, gap.closed rfl, lined.empty rfl]
        | cons first others => exact lined.first
      · refine List.isChain_append.mpr ⟨lined.between, .singleton node, ?_⟩
        rintro before isLast _ ⟨⟩
        have among := List.mem_of_getLast? isLast
        exact ⟨here, tile.start, gap.ignorable, (lined.inside before among).trans reached.symm,
          source.trans reached.symm, lined.last before isLast, covers.start_eq⟩
      · rw [List.getLast?_concat]
        rintro _ ⟨⟩
        exact covers.stop_eq
      · exact fun empty => absurd empty (by simp)

/-- A match has a node, and its tree is laid out as it should be. -/
def WellLaid (env : Env) (child : Option Node) : Prop :=
  ∃ node, child = some node ∧ ∀ inner ∈ node.visit, inner.Fits env

theorem WellLaid.of_children {node : Node} (fits : node.Fits env)
    (children : ∀ child ∈ node.children, WellLaid env child) : WellLaid env (some node) := by
  refine ⟨node, rfl, Node.forall_mem_visit fits fun child isChild => ?_⟩
  obtain ⟨_, ⟨⟩, below⟩ := children (some child) isChild
  exact below

theorem WellLaid.children {tiles : List Tile} (each : ∀ tile ∈ tiles, WellLaid env tile.node) :
    ∀ child ∈ tiles.map Tile.node, WellLaid env child :=
  List.forall_mem_map.mpr each

/-- The tiles of a row have nodes that cover them, if they have nodes at all. -/
theorem WellLaid.covered {tiles : List Tile} (each : ∀ tile ∈ tiles, WellLaid env tile.node)
    (built : ∀ tile ∈ tiles, Tiled env tile.expr atomic tile.start tile.node tile.stop) :
    ∀ tile ∈ tiles, ∃ node, tile.node = some node ∧ node.span.Covers tile.start tile.stop := by
  intro tile among
  obtain ⟨node, named, _⟩ := each tile among
  exact ⟨node, named, (built tile among).covers named⟩

/-- The nodes of a match are laid out as they should be, if ignored text is nowhere asked for
explicitly. -/
theorem Tiled.wellLaid {expr : Expr} {node : Option Node}
    (tiled : Tiled env expr atomic here node stop) (plain : Throughout env (· ≠ .ignored) expr) :
    WellLaid env node := by
  induction tiled with
  | terminal => exact .of_children trivial nofun
  | @seq first rest atomic here stop tiles span whole row built covers ih =>
    have each : ∀ tile ∈ tiles, WellLaid env tile.node := fun tile among =>
      ih tile among (plain.part (.seq (whole ▸ List.mem_map_of_mem among)))
    refine .of_children ?_ (WellLaid.children each)
    obtain ⟨nodes, names, lined⟩ := row.lined (WellLaid.covered each built)
    refine ⟨nodes, names, ?_, lined.inOrder covers, fun node isLast => ?_⟩
    · -- A sequence has a first item.
      rintro rfl
      rw [List.map_nil, List.map_eq_nil_iff] at names
      subst names
      cases whole
    · exact (lined.last node isLast).trans covers.stop_eq.symm
  | choice chosen tiled covers ih =>
    have child := ih (plain.part (.choice (List.mem_of_getElem? chosen)))
    refine .of_children ?_ (List.forall_mem_singleton.mpr child)
    obtain ⟨node, rfl, _⟩ := child
    exact ⟨node, rfl, (tiled.covers rfl).unique covers⟩
  | optPresent tiled covers ih =>
    obtain ⟨node, rfl, below⟩ := ih (plain.part .opt)
    refine .of_children ⟨nofun, ?_⟩ (List.forall_mem_singleton.mpr ⟨node, rfl, below⟩)
    rintro _ ⟨⟩
    exact (tiled.covers rfl).unique covers
  | optAbsent covers =>
    exact .of_children ⟨fun _ => covers.stop_eq.trans covers.start_eq.symm, nofun⟩ nofun
  | @rep body min max atomic here last stop tiles span _ same row built gap _ covers ih =>
    have each : ∀ tile ∈ tiles, WellLaid env tile.node := fun tile among =>
      ih tile among (same tile among ▸ plain.part .rep)
    refine .of_children ?_ (WellLaid.children each)
    obtain ⟨nodes, names, lined⟩ := row.lined (WellLaid.covered each built)
    refine ⟨nodes, names, lined.inOrder covers, fun node isLast => ?_, fun none => ?_⟩
    · -- Behind the last match lies what was skipped before the body failed.
      have forward : ∀ tile ∈ tiles, tile.start.Precedes tile.stop := fun tile among =>
        (built tile among).precedes
      exact ⟨last, stop, gap.ignorable, covers.source_eq.trans (row.precedes forward).input_eq.symm,
        lined.last node isLast, covers.stop_eq⟩
    · -- Without a match nothing is skipped either.
      subst none
      rw [List.map_nil, List.map_eq_nil_iff] at names
      subst names
      rw [covers.stop_eq, covers.start_eq, gap.closed rfl, lined.empty rfl]
  | positive tiled covers ih =>
    obtain ⟨node, rfl, below⟩ := ih (plain.part .positive)
    exact .of_children (covers.stop_eq.trans covers.start_eq.symm)
      (List.forall_mem_singleton.mpr ⟨node, rfl, below⟩)
  | negative covers => exact .of_children (covers.stop_eq.trans covers.start_eq.symm) nofun
  | restorable _ ih => exact ih (plain.part .restorable)
  | push tiled covers ih =>
    have child := ih (plain.part .push)
    refine .of_children ?_ (List.forall_mem_singleton.mpr child)
    obtain ⟨node, rfl, _⟩ := child
    exact ⟨node, rfl, (tiled.covers rfl).unique covers⟩
  | silent _ ih => exact ih (plain.part .rule)
  | rule loud tiled covers ih =>
    obtain ⟨node, rfl, below⟩ := ih (plain.part .rule)
    split
    · exact .of_children nofun nofun
    · refine .of_children ?_ (List.forall_mem_singleton.mpr ⟨node, rfl, below⟩)
      rintro _ ⟨⟩
      exact (tiled.covers rfl).unique covers
  | ref defined _ ih => exact ih (plain.part (.ref defined))
  | lazy resolved _ ih => exact ih (plain.part (.lazy resolved))
  | ignored => exact absurd rfl plain.self
  | pair early late covers ihEarly ihLate =>
    obtain ⟨first, rfl, belowFirst⟩ := ihEarly (plain.part .pair)
    obtain ⟨second, rfl, belowSecond⟩ := ihLate (plain.part .pair)
    have coversFirst := early.covers rfl
    have coversSecond := late.covers rfl
    refine .of_children ⟨[first, second], rfl, nofun, ⟨?_, ?_⟩, ?_⟩ ?_
    · rintro _ ⟨⟩
      exact ⟨coversFirst.source_eq.trans covers.source_eq.symm,
        coversFirst.start_eq.trans covers.start_eq.symm⟩
    · refine List.isChain_pair.mpr ⟨_, _, .none, ?_, coversSecond.source_eq, coversFirst.stop_eq,
        coversSecond.start_eq⟩
      exact coversFirst.source_eq.trans early.precedes.input_eq.symm
    · rintro _ ⟨⟩
      exact coversSecond.stop_eq.trans covers.stop_eq.symm
    · rintro child isChild
      rw [Node.children, List.mem_cons, List.mem_singleton] at isChild
      rcases isChild with rfl | rfl
      · exact ⟨first, rfl, belowFirst⟩
      · exact ⟨second, rfl, belowSecond⟩

end Peg
