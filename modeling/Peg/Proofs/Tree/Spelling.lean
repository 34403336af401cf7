import Peg.Proofs.Tree.Entries
import Peg.Proofs.Tree.Layout

/-!
# A tree spells its text

From the leaves of a tree that stand outside of lookaheads, and the ignored text between them, the
text of the tree can be put together again. A leaf is a terminal or the node of a rule that keeps no
content. The ignored text has no nodes: it is what lies between the children of a sequence or of a
repetition, and after the last match of a repetition.
-/
namespace Peg

/-- A part of what a tree spells. -/
inductive Piece where
  /-- A node that is not taken apart. -/
  | leaf (node : Node)
  /-- What lies between two bounds of the input and belongs to no node. -/
  | gap (source : Input) (start stop : Int)

def Piece.text : Piece → String
  | leaf node => node.text
  | gap source start stop => source.slice start stop

namespace Node

mutual

/-- The leaves of a tree outside of lookaheads, with the gaps between them. -/
def pieces : Node → List Piece
  | terminal kind span value => [.leaf (terminal kind span value)]
  | seq span items => piecesOfItems span.source span.stop span.start items
  | rep span items => piecesOfItems span.source span.stop span.start items
  | choice _ _ child => piecesOfChild child
  | opt _ child => piecesOfChild child
  | push _ child => piecesOfChild child
  | predicate .. => []
  | rule name span child =>
    if child.isNone then [.leaf (rule name span none)] else piecesOfChild child

def piecesOfChild : Option Node → List Piece
  | none => []
  | some node => node.pieces

/-- The leaves and gaps of some children: a gap up to each child, and one up to the end. -/
def piecesOfItems (source : Input) (stop : Int) : Int → List (Option Node) → List Piece
  | here, [] => [.gap source here stop]
  | here, none :: rest => piecesOfItems source stop here rest
  | here, some node :: rest =>
    .gap source here node.span.start :: (node.pieces ++
      piecesOfItems source stop node.span.stop rest)

end

/-- One more child ends the gap after the others, and starts another one. -/
theorem piecesOfItems_concat (source : Input) (here stop : Int) (items : List (Option Node))
    (node : Node) :
    piecesOfItems source stop here (items ++ [some node]) =
      piecesOfItems source node.span.start here items ++
        (node.pieces ++ [.gap source node.span.stop stop]) := by
  induction items generalizing here with
  | nil => rfl
  | cons child rest ih =>
    cases child with
    | none =>
      simp only [List.cons_append, piecesOfItems]
      exact ih here
    | some other =>
      simp only [List.cons_append, piecesOfItems, List.append_assoc]
      rw [ih other.span.stop]

end Node

/-- From one position to another the text is spelled by leaves, which cover their parts of it, and
by ignored text. -/
inductive Spells (env : Env) : List Piece → Position → Position → Prop
  | nil {here : Position} : Spells env [] here here
  | leaf {node : Node} {here stop : Position} :
      node.span.Covers here stop → Spells env [.leaf node] here stop
  | gap {here stop : Position} :
      Ignorable env here stop → Spells env [.gap here.input here.offset stop.offset] here stop
  | append {early late : List Piece} {here middle stop : Position} :
      Spells env early here middle → Spells env late middle stop →
      Spells env (early ++ late) here stop

namespace Spells

variable {env : Env} {pieces : List Piece} {here stop : Position}

theorem precedes (spells : Spells env pieces here stop) : here.Precedes stop := by
  induction spells with
  | nil => exact .refl _
  | leaf covers => exact covers.toPrecedes
  | gap ignorable => exact ignorable.precedes
  | append _ _ early late => exact early.trans late

theorem text_eq (spells : Spells env pieces here stop) :
    String.join (pieces.map Piece.text) = String.ofList (here.segment stop) := by
  induction spells with
  | @nil here => rw [Position.segment_self, List.map_nil, String.join_nil, String.ofList_nil]
  | leaf covers =>
    rw [List.map_singleton, String.join_cons, String.join_nil, String.append_empty]
    exact covers.text_eq
  | gap ignorable =>
    rw [List.map_singleton, String.join_cons, String.join_nil, String.append_empty]
    exact Position.slice_eq_segment ignorable.precedes
  | append early late ihEarly ihLate =>
    rw [List.map_append, String.join_append, ihEarly, ihLate, ← String.ofList_append,
      Position.segment_append early.precedes late.precedes]

end Spells

variable {env : Env} {start here stop : Position} {atomic : Bool}

/-- There is a node, and the pieces of its tree spell what lies between the positions. -/
def Spelled (env : Env) (node : Option Node) (here stop : Position) : Prop :=
  ∃ root, node = some root ∧ Spells env root.pieces here stop

/-- A row is spelled by its nodes and the gaps between them and after them. -/
theorem Row.spells {tiles : List Tile} {flag : Bool} (row : Row env flag start tiles here)
    (built : ∀ tile ∈ tiles, Tiled env tile.expr atomic tile.start tile.node tile.stop)
    (each : ∀ tile ∈ tiles, Spelled env tile.node tile.start tile.stop)
    (rest : Ignorable env here stop) :
    Spells env (Node.piecesOfItems start.input stop.offset start.offset (tiles.map Tile.node))
      start stop := by
  induction row generalizing stop with
  | nil => exact .gap rest
  | @snoc tiles here tile row gap ih =>
    rw [List.forall_mem_append, List.forall_mem_singleton] at built each
    obtain ⟨earlier, node, named, spelled⟩ := each
    have covers := built.2.covers named
    -- For the tiles before it, what is skipped in front of the last one is what follows them.
    have before := ih built.1 earlier gap.ignorable
    have source : start.input = tile.stop.input :=
      (before.precedes.trans covers.toPrecedes).input_eq.symm
    rw [List.map_append, List.map_singleton, named, Node.piecesOfItems_concat, covers.start_eq,
      covers.stop_eq]
    refine before.append (spelled.append ?_)
    rw [source]
    exact .gap rest

/-- The pieces of a node over a span lie between the bounds of the span. -/
theorem Spells.over {span : Span} {items : List (Option Node)}
    (spells : Spells env (Node.piecesOfItems here.input stop.offset here.offset items) here stop)
    (covers : span.Covers here stop) :
    Spells env (Node.piecesOfItems span.source span.stop span.start items) here stop := by
  rw [covers.source_eq, covers.start_eq, covers.stop_eq]
  exact spells

/-- A match has a node, and the pieces of its tree spell what was matched, if ignored text is
nowhere asked for explicitly. -/
theorem Tiled.spelled {expr : Expr} {node : Option Node}
    (tiled : Tiled env expr atomic here node stop) (plain : Throughout env (· ≠ .ignored) expr) :
    Spelled env node here stop := by
  induction tiled with
  | terminal _ covers => exact ⟨_, rfl, .leaf covers⟩
  | seq whole row built covers ih =>
    have each := fun tile among =>
      ih tile among (plain.part (.seq (whole ▸ List.mem_map_of_mem among)))
    exact ⟨_, rfl, (row.spells built each .none).over covers⟩
  | rep _ same row built gap _ covers ih =>
    have each := fun tile among => ih tile among (same tile among ▸ plain.part .rep)
    exact ⟨_, rfl, (row.spells built each gap.ignorable).over covers⟩
  | choice chosen _ _ ih =>
    obtain ⟨node, rfl, spells⟩ := ih (plain.part (.choice (List.mem_of_getElem? chosen)))
    exact ⟨_, rfl, spells⟩
  | optPresent _ _ ih =>
    obtain ⟨node, rfl, spells⟩ := ih (plain.part .opt)
    exact ⟨_, rfl, spells⟩
  | push _ _ ih =>
    obtain ⟨node, rfl, spells⟩ := ih (plain.part .push)
    exact ⟨_, rfl, spells⟩
  | optAbsent | positive | negative => exact ⟨_, rfl, .nil⟩
  | restorable _ ih => exact ih (plain.part .restorable)
  | silent _ ih => exact ih (plain.part .rule)
  | @rule _ name kind _ _ _ _ _ span _ _ covers ih =>
    obtain ⟨node, rfl, spells⟩ := ih (plain.part .rule)
    refine ⟨_, rfl, ?_⟩
    by_cases bare : kind = .atomic
    · -- Without content the node is a leaf itself, over all of what its body spells.
      rw [if_pos bare]
      exact .leaf covers
    · rw [if_neg bare]
      exact spells
  | ref defined _ ih => exact ih (plain.part (.ref defined))
  | lazy resolved _ ih => exact ih (plain.part (.lazy resolved))
  | ignored => exact absurd rfl plain.self
  | @pair body atomic here middle stop one other span early late covers ihEarly ihLate =>
    -- Two matches with nothing between them are a row that runs atomically.
    have first : Row env true here [⟨body, here, one, middle⟩] middle :=
      .snoc .nil (.refl env _ here)
    have both := @Row.snoc _ _ _ _ _ ⟨body, middle, other, stop⟩ first (.refl env _ middle)
    have built : ∀ tile ∈ ([⟨body, here, one, middle⟩, ⟨body, middle, other, stop⟩] : List Tile),
        Tiled env tile.expr atomic tile.start tile.node tile.stop := by
      rw [List.forall_mem_cons, List.forall_mem_singleton]
      exact ⟨early, late⟩
    refine ⟨_, rfl, (both.spells built ?_ .none).over covers⟩
    rw [List.forall_mem_append, List.forall_mem_singleton, List.forall_mem_singleton]
    exact ⟨ihEarly (plain.part .pair), ihLate (plain.part .pair)⟩

/-- What lies between the start and the end of the text is the text. -/
theorem Position.segment_start {input : Input} {stop : Position}
    (final : stop.offset = input.size) :
    (Position.start input).segment stop = input.chars.toList := by
  rw [segment, final]
  exact List.take_of_length_le (Nat.le_of_eq (rest_length (.start input)))

/-- Where ignored text is not asked for explicitly, every match has a tree. The matches of the parts
lie in it beside each other, with ignored text between them unless they run atomically, and the
spans of the nodes fit together. The leaves outside of lookaheads and the ignored text between them
spell the text of the tree. A parse goes on with ignored text up to the end of the text. -/
theorem tree_tiles_its_text (env : Env) (expr : Expr)
    (plain : Throughout env (· ≠ .ignored) expr) :
    (∀ start atomic before found after,
        Finishes env expr start atomic before (some found) after →
        ∃ node, found.node = some node ∧ Tiled env expr atomic start (some node) found.stop ∧
          (∀ inner ∈ node.visit, inner.Fits env) ∧ Spells env node.pieces start found.stop ∧
          String.join (node.pieces.map Piece.text) = node.text) ∧
      ∀ fuel before found after, parse env fuel expr before = .done (.ok found) after →
        ∃ node middle, found.node = some node ∧
          Tiled env expr false (.start env.input) (some node) middle ∧
          Gap env (env.isAtomic expr) middle found.stop ∧
          node.text ++ env.input.slice middle.offset found.stop.offset =
            String.ofList env.input.chars.toList := by
  constructor
  · intro start atomic before found after finishes
    have tiled := finishes.tiled
    obtain ⟨node, present, fits⟩ := tiled.wellLaid plain
    obtain ⟨root, also, spells⟩ := tiled.spelled plain
    cases present.symm.trans also
    have covers := tiled.covers present
    rw [present] at tiled
    exact ⟨node, present, tiled, fits, spells, spells.text_eq.trans covers.text_eq.symm⟩
  · intro fuel before found after parsed
    obtain ⟨middle, tiled, gap, final⟩ := tiled_of_parse parsed
    obtain ⟨node, present, _⟩ := tiled.wellLaid plain
    have covers := tiled.covers present
    have ordered := gap.ignorable.precedes
    have source : middle.input = env.input := covers.input_eq
    have rest : env.input.slice middle.offset found.stop.offset =
        String.ofList (middle.segment found.stop) := by
      rw [← source]
      exact Position.slice_eq_segment ordered
    rw [present] at tiled
    refine ⟨node, middle, present, tiled, gap, ?_⟩
    rw [Node.text, covers.text_eq, rest, ← String.ofList_append,
      Position.segment_append covers.toPrecedes ordered, Position.segment_start final]

/-- A letter, and another one that may be missing. -/
def spacedLetters : Expr := .seq (.literal "a") [.opt (.literal "b")]

/-- Letters with spaces between them. -/
def spacedEnv : Env :=
  { input := ⟨0, #['a', ' ', ' ', 'b', 'c']⟩, whitespace := some (.literal " ") }

theorem spacedLetters_plain : Throughout spacedEnv (· ≠ .ignored) spacedLetters := by
  refine .of_parts nofun fun part uses => ?_
  cases uses with
  | seq among =>
    rw [List.mem_cons, List.mem_singleton] at among
    rcases among with rfl | rfl
    · exact .terminal nofun
    · refine .of_parts nofun fun part uses => ?_
      cases uses with
      | opt => exact .terminal nofun

/-- The two letters and the spaces between them spell the text of the tree. -/
theorem spaced_letters_spelled :
    ∃ found after node,
      Finishes spacedEnv spacedLetters (.start spacedEnv.input) false {} (some found) after ∧
        found.node = some node ∧ String.join (node.pieces.map Piece.text) = node.text ∧
        node.text = "a  b" := by
  have matched : ∃ found after,
      Finishes spacedEnv spacedLetters (.start spacedEnv.input) false {} (some found) after ∧
        found.stop.offset = 4 := ⟨_, _, ⟨40, rfl⟩, rfl⟩
  obtain ⟨found, after, finishes, far⟩ := matched
  obtain ⟨node, present, tiled, _, _, spelled⟩ :=
    (tree_tiles_its_text spacedEnv spacedLetters spacedLetters_plain).1 _ _ _ _ _ finishes
  have covers := tiled.covers rfl
  have text : node.text = "a  b" := by
    rw [Node.text, Span.text, covers.source_eq, covers.start_eq, covers.stop_eq, far]
    rfl
  exact ⟨found, after, node, finishes, present, spelled, text⟩

end Peg
