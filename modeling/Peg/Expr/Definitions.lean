import Peg.Expr.Operand
import Peg.Expr.Printer

/-!
The definitions that lazy expressions stand for. What a lazy expression stands for never changes,
but the text of an expression depends on which lazy ones have been matched so far: those are shown
as what they stand for. Definitions may be recursive, and then a lazy expression that was matched
may be shown inside itself: such an expression has no text any more.
-/

namespace Peg

/-- Named definitions, each with the expression that it stands for, or why it stands for none. -/
abbrev Definitions := List (String × Except BuildError Expr)

namespace Definitions

/-- The definitions given by named operands. -/
def ofOperands (operands : List (String × Operand)) : Definitions :=
  operands.map fun (name, operand) => (name, operand.toExpr)

/-- The expression that a lazy one stands for. -/
def resolve (definitions : Definitions) (cell : LazyCell) : Except BuildError Expr :=
  match definitions.lookup cell.definition with
  | some target => target
  | none => .error (.undefined cell.definition)

/-- The expression as which a lazy one is shown after the given ones were matched. -/
def shown? (definitions : Definitions) (forced : List LazyCell) (cell : LazyCell) :
    Option Expr :=
  if cell ∈ forced then (definitions.resolve cell).toOption else none

/-- The text of a lazy expression. There is none where more than `depth` lazy ones would be shown
inside each other. -/
def lazyText (definitions : Definitions) (forced : List LazyCell) :
    (depth : Nat) → LazyCell → Option String
  | 0, cell =>
    match definitions.shown? forced cell with
    | some _ => none
    | none => some "Lazy"
  | depth + 1, cell =>
    match definitions.shown? forced cell with
    | some target => target.textWith (definitions.lazyText forced depth)
    | none => some "Lazy"

end Definitions

namespace Expr

/-- The text of an expression after the given lazy ones were matched. Where more lazy ones than
were matched would be shown inside each other, one of them is shown inside itself, and there is no
text. -/
def text (definitions : Definitions) (forced : List LazyCell) (expr : Expr) : Option String :=
  expr.textWith (definitions.lazyText forced forced.length)

/-- The text of an expression as a part of another one. -/
def operandText (definitions : Definitions) (forced : List LazyCell) (expr : Expr) :
    Option String :=
  (expr.text definitions forced).map expr.asOperand

end Expr

namespace Operand

mutual

/-- The form in which a message shows an operand, given the texts of expressions. -/
def formWith (exprText : Expr → Option String) : Operand → Option String
  | datum value => some value.form
  | list items => do return Text.listForm (← formsWith exprText items)
  | tuple items => do return Text.rowForm (← formsWith exprText items)
  | deferred definition => some definition
  | expr e => exprText e

/-- The forms of several operands. -/
def formsWith (exprText : Expr → Option String) : List Operand → Option (List String)
  | [] => some []
  | operand :: rest => do return (← operand.formWith exprText) :: (← formsWith exprText rest)

end

/-- The text of an operand after the given lazy expressions were matched. -/
def text (definitions : Definitions) (forced : List LazyCell) : Operand → Option String
  | datum (.text text) => some text
  | operand => operand.formWith (Expr.text definitions forced)

end Operand

end Peg
