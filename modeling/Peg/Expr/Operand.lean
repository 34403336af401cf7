import Peg.Datum
import Peg.Expr.Basic

/-!
Operands: what may stand where an expression is asked for. A text stands for the literal, a list
for the sequence of its items, and a deferred definition for the lazy expression that all uses of
the definition share. Anything else that is not an expression is refused.
-/

namespace Peg

/-- What may be written where an expression is asked for. -/
inductive Operand where
  /-- An untyped value. -/
  | datum (value : Datum)
  /-- A list of operands. -/
  | list (items : List Operand)
  /-- A fixed row of operands. -/
  | tuple (items : List Operand)
  /-- The definition with this name, to be looked up later. -/
  | deferred (definition : String)
  /-- An expression. -/
  | expr (e : Expr)

/-- The name of the type of an operand. -/
def Operand.typeName : Operand → String
  | datum value => value.typeName
  | list _ => "list"
  | tuple _ => "tuple"
  | deferred _ => "function"
  | expr e => e.qualifiedClassName

/-- The name of the type of an operand, unqualified. -/
def Operand.shortTypeName : Operand → String
  | expr e => e.className
  | other => other.typeName

/-- The name of an operand that is a rule or a reference to one. Nothing else has a name. -/
def Operand.name? : Operand → Option String
  | expr (.rule _ name _ _) => some name
  | expr (.ref name) => some name
  | _ => none

/-- The rule that an operand is, if it is one. -/
def Operand.rule? : Operand → Option Rule
  | expr e => e.rule?
  | _ => none

/-- Why an expression cannot be built. -/
inductive BuildError where
  /-- The value does not stand for an expression. -/
  | notConvertible (value : Datum)
  /-- A text was asked for, and something of another type was given. -/
  | notText (typeName : String)
  /-- Something of a type that cannot be made optional was to be made so. -/
  | notOptional (typeName : String)
  /-- The bounds of a range are not single characters. -/
  | rangeBounds
  /-- The lower bound of a range is above the upper one. -/
  | emptyRange (low high : String)
  /-- There is no text at which to stop skipping. -/
  | noDelimiter
  /-- A sequence has no part. -/
  | emptySeq
  /-- A choice has no part. -/
  | emptyChoice
  /-- A number of characters is negative. -/
  | negativeCount
  /-- The bounds of a repetition are negative or in the wrong order. -/
  | repBounds (min : Int) (max : Option Int)
  /-- There is no such kind of rule. -/
  | unknownKind (kind : Datum)
  /-- The limit of repetitions is negative. -/
  | negativeLimit
  /-- There is no such definition. -/
  | undefined (definition : String)

/-- The wording of an error. -/
def BuildError.message : BuildError → String
  | notConvertible value => s!"Cannot convert {value.form} to a parsing expression."
  | notText typeName => s!"Expected str. Received: <class '{typeName}'>."
  | notOptional typeName => s!"bad operand type for unary ~: '{typeName}'"
  | rangeBounds => "CharRange bounds must be single characters."
  | emptyRange low high =>
    s!"Empty character range: {Text.literalForm low}..{Text.literalForm high}"
  | noDelimiter => "Skip requires at least one delimiter."
  | emptySeq => "Seq requires at least one expression."
  | emptyChoice => "Choice requires at least one expression."
  | negativeCount => "SkipChar count must not be negative."
  | repBounds min max =>
    let last := match max with
      | none => "None"
      | some max => toString max
    s!"Invalid repetition bounds: {min}..{last}"
  | unknownKind kind => s!"Unknown rule kind: {kind.form}"
  | negativeLimit => "repeat_limit must not be negative."
  | undefined definition => definition

namespace Operand

/-- The sequence of some expressions. -/
def seqOf : List Expr → Except BuildError Expr
  | [] => .error .emptySeq
  | first :: rest => .ok (.seq first rest)

/-- The choice between some expressions. -/
def choiceOf : List Expr → Except BuildError Expr
  | [] => .error .emptyChoice
  | first :: rest => .ok (.choice first rest)

mutual

/-- The expression that an operand stands for. -/
def toExpr : Operand → Except BuildError Expr
  | datum (.text text) => .ok (.literal text)
  | datum value => .error (.notConvertible value)
  | list items => do seqOf (← toExprs items)
  | tuple items => do seqOf (← toExprs items)
  | deferred definition => .ok (.lazy ⟨definition, none⟩)
  | expr e => .ok e

/-- The expressions that operands stand for. The first that stands for none decides the error. -/
def toExprs : List Operand → Except BuildError (List Expr)
  | [] => .ok []
  | operand :: rest => do
    let expr ← operand.toExpr
    return expr :: (← toExprs rest)

end

end Operand

end Peg
