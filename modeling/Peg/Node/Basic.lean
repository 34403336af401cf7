import Peg.Span

/-!
The concrete syntax tree of a successful match. Every node carries the span of input that it
covers; texts are cut from the input on demand. Skipped text has no node, so a child may be absent.
-/

namespace Peg

/-- What a leaf of the tree was matched by. -/
inductive TerminalKind where
  /-- A text. -/
  | literal
  /-- A text in any case. -/
  | insens
  /-- A character of a range. -/
  | char
  /-- Any character. -/
  | any
  /-- The start of the input. -/
  | soi
  /-- The end of the input. -/
  | eoi
  /-- A line ending. -/
  | newline
  /-- Skipped characters. -/
  | skip
  /-- The empty text. -/
  | empty
  /-- The top of the stack. -/
  | peek
  /-- The top of the stack, taken off. -/
  | pop
  /-- The whole stack. -/
  | peekAll
  /-- The whole stack, cleared. -/
  | popAll
  /-- A slice of the stack. -/
  | peekSlice
  /-- The top of the stack, taken off unmatched. -/
  | drop
deriving DecidableEq

/-- The name of a kind of leaf. -/
def TerminalKind.name : TerminalKind → String
  | literal => "literal"
  | insens => "insens"
  | char => "char"
  | any => "any"
  | soi => "soi"
  | eoi => "eoi"
  | newline => "newline"
  | skip => "skip"
  | empty => "empty"
  | peek => "peek"
  | pop => "pop"
  | peekAll => "peek_all"
  | popAll => "pop_all"
  | peekSlice => "peek_slice"
  | drop => "drop"

/-- A node of the syntax tree. -/
inductive Node where
  /-- A leaf, with the character, line ending or text that was matched. -/
  | terminal (kind : TerminalKind) (span : Span) (value : String)
  /-- The items of a sequence. -/
  | seq (span : Span) (items : List (Option Node))
  /-- The alternative with this index. -/
  | choice (span : Span) (index : Nat) (child : Option Node)
  /-- An optional part. -/
  | opt (span : Span) (child : Option Node)
  /-- The matches of a repetition. -/
  | rep (span : Span) (items : List (Option Node))
  /-- A lookahead, which covers nothing. A positive one keeps what it saw. -/
  | predicate (span : Span) (positive : Bool) (child : Option Node)
  /-- A match that was put on the stack. -/
  | push (span : Span) (child : Option Node)
  /-- The match of a rule. An atomic rule keeps its span only. -/
  | rule (name : String) (span : Span) (child : Option Node)

namespace Node

/-- The part of the input that a node covers. -/
def span : Node → Span
  | terminal _ span _ | seq span _ | choice span _ _ | opt span _ | rep span _
  | predicate span _ _ | push span _ | rule _ span _ => span

/-- The text that a node covers. -/
def text (node : Node) : String := node.span.text

/-- The children of a node from left to right, where an absent optional part is no child. -/
def children : Node → List (Option Node)
  | terminal .. => []
  | seq _ items | rep _ items => items
  | choice _ _ child | push _ child => [child]
  | opt _ child | predicate _ _ child | rule _ _ child =>
    match child with
    | none => []
    | some node => [some node]

/-- The children that have a node. -/
def childNodes (node : Node) : List Node := node.children.filterMap id

/-- The name of the class of a node. -/
def className : Node → String
  | terminal .. => "Terminal"
  | seq .. => "SeqNode"
  | choice .. => "ChoiceNode"
  | opt .. => "OptNode"
  | rep .. => "RepNode"
  | predicate .. => "PredicateNode"
  | push .. => "PushNode"
  | rule .. => "RuleNode"

mutual

/-- The number of nodes of a tree. -/
def size : Node → Nat
  | terminal .. => 1
  | seq _ items => sizeItems items + 1
  | rep _ items => sizeItems items + 1
  | choice _ _ child => sizeChild child + 1
  | opt _ child => sizeChild child + 1
  | predicate _ _ child => sizeChild child + 1
  | push _ child => sizeChild child + 1
  | rule _ _ child => sizeChild child + 1

/-- The number of nodes of a child. -/
def sizeChild : Option Node → Nat
  | none => 0
  | some node => node.size

/-- The number of nodes of a list of children. -/
def sizeItems : List (Option Node) → Nat
  | [] => 0
  | child :: rest => sizeChild child + sizeItems rest

end

/-- The number of nodes of several trees. -/
def sizeAll : List Node → Nat
  | [] => 0
  | node :: rest => node.size + sizeAll rest

theorem sizeAll_append (first second : List Node) :
    sizeAll (first ++ second) = sizeAll first + sizeAll second := by
  induction first with
  | nil => simp [sizeAll]
  | cons node rest ih => simp [sizeAll, ih, Nat.add_assoc]

theorem sizeAll_filterMap (children : List (Option Node)) :
    sizeAll (children.filterMap id) = sizeItems children := by
  induction children with
  | nil => rfl
  | cons child rest ih => cases child <;> simpa [sizeAll, sizeItems, sizeChild] using ih

/-- A tree has one node more than its children together. -/
theorem sizeAll_childNodes (node : Node) : sizeAll node.childNodes + 1 = node.size := by
  rw [childNodes, sizeAll_filterMap]
  cases node with
  | terminal => rfl
  | seq => rfl
  | rep => rfl
  | choice _ _ child => simp [children, size, sizeItems]
  | push _ child => simp [children, size, sizeItems]
  | opt _ child => cases child <;> simp [children, size, sizeItems, sizeChild]
  | predicate _ _ child => cases child <;> simp [children, size, sizeItems, sizeChild]
  | rule _ _ child => cases child <;> simp [children, size, sizeItems, sizeChild]

end Node

end Peg
