import Peg.Proofs.Machine.Agreement
import Peg.Proofs.Tree.Spans

/-!
# How a match is put together

The matches of the parts of an expression lie beside each other in the text: those of the items of a
sequence or of a repetition in a row, with ignored text between them unless it runs atomically, and
the match of a single part exactly where the whole lies. `Tiled` says so of a match by the
constructors of the expression, and says which node stands for it. It does not speak of states, so
that it tells of a match all that does not depend on what the stack and the tracker hold.
-/
namespace Peg

/-- Matches of what is ignored, none of them empty, one after the other. -/
inductive Ignorable (env : Env) : Position → Position → Prop
  | none {here : Position} : Ignorable env here here
  | more {skipper : Expr} {here stop : Position} {found : Match} {before after : State} :
      skipper ∈ env.skippers → Finishes env skipper here true before (some found) after →
      here.Precedes found.stop → here.offset < found.stop.offset →
      Ignorable env found.stop stop → Ignorable env here stop

namespace Ignorable

variable {env : Env} {here middle stop : Position}

theorem trans (early : Ignorable env here middle) (late : Ignorable env middle stop) :
    Ignorable env here stop := by
  induction early with
  | none => exact late
  | more among finishes ordered moved _ ih => exact .more among finishes ordered moved (ih late)

theorem precedes (ignorable : Ignorable env here stop) : here.Precedes stop := by
  induction ignorable with
  | none => exact .refl _
  | more _ _ ordered _ _ ih => exact ordered.trans ih

end Ignorable

/-- Ignored text where it may stand; elsewhere nothing. -/
structure Gap (env : Env) (forbidden : Bool) (here stop : Position) : Prop where
  ignorable : Ignorable env here stop
  closed : forbidden = true → stop = here

theorem Gap.refl (env : Env) (forbidden : Bool) (here : Position) : Gap env forbidden here here :=
  ⟨.none, fun _ => rfl⟩

/-- The match of a part: where it starts and stops, and its node. -/
structure Tile where
  expr : Expr
  start : Position
  node : Option Node
  stop : Position

/-- Tiles from a position up to another one. In front of each but the first there may be ignored
text, unless they run atomically. -/
inductive Row (env : Env) (atomic : Bool) (start : Position) : List Tile → Position → Prop
  | nil : Row env atomic start [] start
  | snoc {tiles : List Tile} {here : Position} {tile : Tile} :
      Row env atomic start tiles here → Gap env (tiles.isEmpty || atomic) here tile.start →
      Row env atomic start (tiles ++ [tile]) tile.stop

/-- A match of an expression from one position to another, with its node. -/
inductive Tiled (env : Env) : Expr → Bool → Position → Option Node → Position → Prop
  | terminal {leaf : Terminal} {atomic : Bool} {here stop : Position} {kind : TerminalKind}
      {span : Span} {value : String} {before after : State} :
      leaf.attempt here before = .done (some ⟨stop, some (.terminal kind span value)⟩) after →
      span.Covers here stop →
      Tiled env (.terminal leaf) atomic here (some (.terminal kind span value)) stop
  | seq {first : Expr} {rest : List Expr} {atomic : Bool} {here stop : Position}
      {tiles : List Tile} {span : Span} :
      tiles.map Tile.expr = first :: rest → Row env atomic here tiles stop →
      (∀ tile ∈ tiles, Tiled env tile.expr atomic tile.start tile.node tile.stop) →
      span.Covers here stop →
      Tiled env (.seq first rest) atomic here (some (.seq span (tiles.map Tile.node))) stop
  | choice {first expr : Expr} {rest : List Expr} {atomic : Bool} {here stop : Position}
      {index : Nat} {node : Option Node} {span : Span} :
      (first :: rest)[index]? = some expr → Tiled env expr atomic here node stop →
      span.Covers here stop →
      Tiled env (.choice first rest) atomic here (some (.choice span index node)) stop
  | optPresent {body : Expr} {atomic : Bool} {here stop : Position} {node : Option Node}
      {span : Span} :
      Tiled env body atomic here node stop → span.Covers here stop →
      Tiled env (.opt body) atomic here (some (.opt span node)) stop
  | optAbsent {body : Expr} {atomic : Bool} {here : Position} {span : Span} :
      span.Covers here here → Tiled env (.opt body) atomic here (some (.opt span .none)) here
  /-- Ignored text may follow the last match, but not the greatest number of matches. -/
  | rep {body : Expr} {min : Nat} {max : Option Nat} {atomic : Bool} {here last stop : Position}
      {tiles : List Tile} {span : Span} :
      min ≤ tiles.length → (∀ tile ∈ tiles, tile.expr = body) → Row env atomic here tiles last →
      (∀ tile ∈ tiles, Tiled env tile.expr atomic tile.start tile.node tile.stop) →
      Gap env (tiles.isEmpty || atomic) last stop → (max = some tiles.length → stop = last) →
      span.Covers here stop →
      Tiled env (.rep body min max) atomic here (some (.rep span (tiles.map Tile.node))) stop
  | positive {body : Expr} {atomic : Bool} {here seen : Position} {node : Option Node}
      {span : Span} :
      Tiled env body atomic here node seen → span.Covers here here →
      Tiled env (.positive body) atomic here (some (.predicate span true node)) here
  | negative {body : Expr} {atomic : Bool} {here : Position} {span : Span} :
      span.Covers here here →
      Tiled env (.negative body) atomic here (some (.predicate span false .none)) here
  | restorable {body : Expr} {atomic : Bool} {here stop : Position} {node : Option Node} :
      Tiled env body atomic here node stop → Tiled env (.restorable body) atomic here node stop
  | push {body : Expr} {atomic : Bool} {here stop : Position} {node : Option Node} {span : Span} :
      Tiled env body atomic here node stop → span.Covers here stop →
      Tiled env (.push body) atomic here (some (.push span node)) stop
  | silent {tag : Nat} {name : String} {body : Expr} {atomic : Bool} {here stop : Position}
      {node : Option Node} :
      Tiled env body atomic here node stop →
      Tiled env (.rule tag name .silent body) atomic here node stop
  /-- The node of an atomic rule keeps no content. -/
  | rule {tag : Nat} {name : String} {kind : RuleKind} {body : Expr} {atomic : Bool}
      {here stop : Position} {node : Option Node} {span : Span} :
      kind ≠ .silent → Tiled env body (kind.bodyAtomic atomic) here node stop →
      span.Covers here stop →
      Tiled env (.rule tag name kind body) atomic here
        (some (.rule name span (if kind = .atomic then .none else node))) stop
  | ref {name : String} {target : Expr} {atomic : Bool} {here stop : Position}
      {node : Option Node} :
      env.rules.lookup name = some target → Tiled env target atomic here node stop →
      Tiled env (.ref name) atomic here node stop
  | lazy {cell : LazyCell} {target : Expr} {atomic : Bool} {here stop : Position}
      {node : Option Node} :
      env.definitions.resolve cell = .ok target → Tiled env target atomic here node stop →
      Tiled env (.lazy cell) atomic here node stop
  | ignored {atomic : Bool} {here stop : Position} :
      Gap env atomic here stop → Tiled env .ignored atomic here .none stop
  | pair {body : Expr} {atomic : Bool} {here middle stop : Position} {first second : Option Node}
      {span : Span} :
      Tiled env body atomic here first middle → Tiled env body atomic middle second stop →
      span.Covers here stop →
      Tiled env (.pair body) atomic here (some (.seq span [first, second])) stop

/-- A row whose tiles go forward goes forward. -/
theorem Row.precedes {env : Env} {atomic : Bool} {start stop : Position} {tiles : List Tile}
    (row : Row env atomic start tiles stop)
    (forward : ∀ tile ∈ tiles, tile.start.Precedes tile.stop) : start.Precedes stop := by
  induction row with
  | nil => exact .refl start
  | @snoc tiles here tile row gap ih =>
    have early := ih fun other among => forward other (List.mem_append_left [tile] among)
    have last := forward tile (List.mem_append_right tiles (List.mem_singleton_self tile))
    exact (early.trans gap.ignorable.precedes).trans last

namespace Tiled

variable {env : Env} {expr : Expr} {atomic : Bool} {here stop : Position} {node : Option Node}

theorem precedes (tiled : Tiled env expr atomic here node stop) : here.Precedes stop := by
  induction tiled with
  -- Where there is a span, it goes the same way.
  | terminal _ covers | seq _ _ _ covers | choice _ _ covers | optPresent _ covers
  | optAbsent covers | rep _ _ _ _ _ _ covers | positive _ covers | negative covers
  | push _ covers | rule _ _ covers | pair _ _ covers => exact covers.toPrecedes
  | restorable _ ih | silent _ ih | ref _ _ ih | lazy _ _ ih => exact ih
  | ignored gap => exact gap.ignorable.precedes

/-- The node of a match covers exactly what was matched. -/
theorem covers (tiled : Tiled env expr atomic here node stop) {inner : Node}
    (present : node = some inner) : inner.span.Covers here stop := by
  induction tiled with
  | terminal _ covers | seq _ _ _ covers | choice _ _ covers | optPresent _ covers
  | optAbsent covers | rep _ _ _ _ _ _ covers | positive _ covers | negative covers
  | push _ covers | rule _ _ covers | pair _ _ covers =>
    cases present
    exact covers
  | restorable _ ih | silent _ ih | ref _ _ ih | lazy _ _ ih => exact ih present
  | ignored => cases present

end Tiled

end Peg
