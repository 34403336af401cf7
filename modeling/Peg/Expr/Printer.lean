import Peg.Expr.Basic

/-!
The text of an expression. Sequences and choices stand in parentheses where they are parts of
another expression. Rules and references are shown by their names. A lazy expression that was
matched before is shown as what it stands for, without parentheses, and otherwise by a fixed word.
An expression that is shown inside itself has no text, since it would have no end.
-/

namespace Peg

/-- The text of a terminal. -/
def Terminal.text : Terminal → String
  | literal text => (Failure.literal text false).label
  | insensitive text => (Failure.literal text true).label
  | charRange low high => (Failure.charRange low.toString high.toString).label
  | any => "ANY"
  | startOfInput => "SOI"
  | endOfInput => "EOI"
  | newline => "NEWLINE"
  | skipUntil first rest =>
    let labels := (first :: rest).map fun text => (Failure.literal text false).label
    "Skip(" ++ ", ".intercalate labels ++ ")"
  | skipChars count => s!"SkipChar({count})"
  | alwaysFail => "AlwaysFail"
  | empty => "Empty"
  | peek => "PEEK"
  | pop => "POP"
  | peekAll => "PEEK_ALL"
  | popAll => "POP_ALL"
  | peekSlice start stop => Failure.sliceLabel start stop
  | drop => "DROP"

namespace Expr

/-- The text of an expression as a part of another one. -/
def asOperand : Expr → String → String
  | seq .., text | choice .., text => s!"({text})"
  | _, text => text

/-- The suffix of a repetition with the given bounds. -/
def repSuffix (min : Nat) (max : Option Nat) : String :=
  match min, max with
  | 0, none => "*"
  | 1, none => "+"
  | min, none => s!"\x7b{min}, \x7d"
  | min, some max => s!"\x7b{min}, {max}\x7d"

mutual

/-- The text of an expression, given the texts of lazy ones. -/
def textWith (lazyText : LazyCell → Option String) : Expr → Option String
  | terminal leaf => some leaf.text
  | seq first rest => do
    let text ← first.textWith lazyText
    return " ~ ".intercalate (first.asOperand text :: (← operandsWith lazyText rest))
  | choice first rest => do
    let text ← first.textWith lazyText
    return " | ".intercalate (first.asOperand text :: (← operandsWith lazyText rest))
  | opt body => (body.textWith lazyText).map (body.asOperand · ++ "?")
  | rep body min max => (body.textWith lazyText).map (body.asOperand · ++ repSuffix min max)
  | positive body => (body.textWith lazyText).map ("&" ++ body.asOperand ·)
  | negative body => (body.textWith lazyText).map ("!" ++ body.asOperand ·)
  | restorable body => (body.textWith lazyText).map ("Restorable(" ++ · ++ ")")
  | push body => (body.textWith lazyText).map ("PUSH(" ++ · ++ ")")
  | rule _ name _ _ => some name
  | ref name => some name
  | lazy cell => lazyText cell
  | ignored => some "Ignored"
  | pair _ => some "Pair"
  | abstract => some "Expr"

/-- The texts of expressions as parts of another one. -/
def operandsWith (lazyText : LazyCell → Option String) : List Expr → Option (List String)
  | [] => some []
  | expr :: rest => do
    let text ← expr.textWith lazyText
    return expr.asOperand text :: (← operandsWith lazyText rest)

end

end Expr

end Peg
