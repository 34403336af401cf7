import Peg.Failure

/-!
Parsing expressions. A terminal matches by itself; the other expressions are built from parts. A
rule has a tag that tells it apart from other rules of the same name. A lazy expression stands for
a definition that is looked up when it is first matched, so that definitions may be recursive.
-/

namespace Peg

/-- An expression without parts. -/
inductive Terminal where
  /-- A text. -/
  | literal (text : String)
  /-- A text in any case of its letters. -/
  | insensitive (text : String)
  /-- One character between two characters, both included. -/
  | charRange (low high : Char)
  /-- Any one character. -/
  | any
  /-- The start of the input. -/
  | startOfInput
  /-- The end of the input. -/
  | endOfInput
  /-- A line ending: a carriage return with a line feed, or either alone. -/
  | newline
  /-- The characters in front of the next occurrence of one of the texts. -/
  | skipUntil (first : String) (rest : List String)
  /-- Exactly so many characters. -/
  | skipChars (count : Nat)
  /-- Nothing: it always fails. -/
  | alwaysFail
  /-- The empty text. -/
  | empty
  /-- The text of the top of the stack. -/
  | peek
  /-- The text of the top of the stack, which is taken off. -/
  | pop
  /-- The texts of the whole stack, from the top down. -/
  | peekAll
  /-- The texts of the whole stack, from the top down, which is cleared. -/
  | popAll
  /-- The texts of a slice of the stack, from the top down. -/
  | peekSlice (start : Int) (stop : Option Int)
  /-- The empty text; the top of the stack is taken off. -/
  | drop

/-- How a rule treats skipped text, its name and its content. -/
inductive RuleKind where
  /-- The rule leaves atomicity as it is. -/
  | normal
  /-- The rule leaves no trace in the tree or in reports. -/
  | silent
  /-- Nothing is skipped inside the rule, and its node keeps no content. -/
  | atomic
  /-- Nothing is skipped inside the rule. -/
  | compoundAtomic
  /-- Text is skipped inside the rule even where the rule itself stands in an atomic one. -/
  | nonAtomic
deriving DecidableEq

namespace RuleKind

/-- The name of a kind of rule. -/
def name : RuleKind → String
  | normal => "normal"
  | silent => "silent"
  | atomic => "atomic"
  | compoundAtomic => "compound_atomic"
  | nonAtomic => "non_atomic"

/-- The kind of rule with a name. -/
def ofName? (name : String) : Option RuleKind :=
  [normal, silent, atomic, compoundAtomic, nonAtomic].find? fun kind => kind.name == name

/-- Whether the body of a rule is atomic, given whether the rule is matched atomically. -/
def bodyAtomic (kind : RuleKind) (atomic : Bool) : Bool :=
  match kind with
  | .atomic | compoundAtomic => true
  | nonAtomic => false
  | normal | silent => atomic

/-- Whether the kind forces its rule to be atomic. -/
def forcesAtomic (kind : RuleKind) : Bool := kind.bodyAtomic false

end RuleKind

/-- A lazy expression: the definition that it stands for, and which of the lazy expressions of that
definition it is. -/
structure LazyCell where
  /-- The name of the definition. -/
  definition : String
  /-- The number of the expression, or nothing for the one that is shared. -/
  copy : Option Nat
deriving DecidableEq

/-- A parsing expression. -/
inductive Expr where
  /-- An expression without parts. -/
  | terminal (leaf : Terminal)
  /-- All parts in a row, with ignored text between them unless atomic. -/
  | seq (first : Expr) (rest : List Expr)
  /-- The first part that matches. -/
  | choice (first : Expr) (rest : List Expr)
  /-- The part, if it matches. -/
  | opt (body : Expr)
  /-- The part as often as it matches, at least `min` and at most `max` times. -/
  | rep (body : Expr) (min : Nat) (max : Option Nat)
  /-- The empty text in front of the part. -/
  | positive (body : Expr)
  /-- The empty text where the part does not match. -/
  | negative (body : Expr)
  /-- The part; the stack is as before if it fails. -/
  | restorable (body : Expr)
  /-- The part, whose span is put on the stack. -/
  | push (body : Expr)
  /-- A named rule. -/
  | rule (tag : Nat) (name : String) (kind : RuleKind) (body : Expr)
  /-- The rule with this name in the table of rules. -/
  | ref (name : String)
  /-- A definition that is looked up on first use. -/
  | lazy (cell : LazyCell)
  /-- Insignificant text. -/
  | ignored
  /-- The part twice in a row, with nothing skipped in between. -/
  | pair (body : Expr)
  /-- An expression that does not say how it matches. -/
  | abstract

/-- A named rule. -/
structure Rule where
  /-- What tells the rule apart from all others. -/
  tag : Nat
  /-- The name of the rule. -/
  name : String
  /-- The kind of the rule. -/
  kind : RuleKind
  /-- What the rule matches. -/
  body : Expr

/-- The expression that matches a rule. -/
def Rule.toExpr (rule : Rule) : Expr := .rule rule.tag rule.name rule.kind rule.body

namespace Expr

/-- The rule that an expression is, if it is one. -/
def rule? : Expr → Option Rule
  | rule tag name kind body => some ⟨tag, name, kind, body⟩
  | _ => none

/-- The expression that matches a text. -/
def literal (text : String) : Expr := terminal (.literal text)

/-- The expression that matches one character between two characters. -/
def charRange (low high : Char) : Expr := terminal (.charRange low high)

/-- The expression that matches a part at least once. -/
def repOnce (body : Expr) : Expr := rep body 1 none

end Expr

/-- The name of the class of a terminal. -/
def Terminal.className : Terminal → String
  | literal _ => "Literal"
  | insensitive _ => "Insens"
  | charRange .. => "CharRange"
  | any => "AnyChar"
  | startOfInput => "StartOfInput"
  | endOfInput => "EndOfInput"
  | newline => "Newline"
  | skipUntil .. => "Skip"
  | skipChars _ => "SkipChar"
  | alwaysFail => "AlwaysFail"
  | empty => "Empty"
  | peek => "Peek"
  | pop => "Pop"
  | peekAll => "PeekAll"
  | popAll => "PopAll"
  | peekSlice .. => "PeekSlice"
  | drop => "Drop"

/-- Whether a terminal works on the stack. -/
def Terminal.usesStack : Terminal → Bool
  | peek | pop | peekAll | popAll | peekSlice .. | drop => true
  | _ => false

/-- The name of the class of an expression. -/
def Expr.className : Expr → String
  | terminal leaf => leaf.className
  | seq .. => "Seq"
  | choice .. => "Choice"
  | opt _ => "Opt"
  | rep .. => "Rep"
  | positive _ => "Positive"
  | negative _ => "Negative"
  | restorable _ => "Restorable"
  | push _ => "Push"
  | rule .. => "Rule"
  | ref _ => "Ref"
  | lazy _ => "Lazy"
  | ignored => "Ignored"
  | pair _ => "Pair"
  | abstract => "Expr"

/-- The qualified name of the class of an expression, as error messages give it. -/
def Expr.qualifiedClassName (expr : Expr) : String :=
  let group := match expr with
    | terminal leaf =>
      if leaf.usesStack then "pegmatch.expressions.stack_ops"
      else "pegmatch.expressions.terminals"
    | push _ => "pegmatch.expressions.stack_ops"
    | seq .. | choice .. | opt _ | rep .. | positive _ | negative _ | restorable _ =>
      "pegmatch.expressions.structural"
    | rule .. | ref _ | lazy _ | ignored => "pegmatch.expressions.rules"
    | pair _ => "__main__"
    | abstract => "pegmatch.expressions.base"
  group ++ "." ++ expr.className

end Peg
