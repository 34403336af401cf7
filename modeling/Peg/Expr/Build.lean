import Peg.Expr.Operand

/-!
Checked constructors of expressions. Each refuses what its expression cannot be built from; where
both a bound and a part are wrong, the bound is reported.
-/

namespace Peg.Expr

/-- The text that a value is. -/
def textOf : Datum → Except BuildError String
  | .text text => .ok text
  | value => .error (.notText value.typeName)

/-- The expression that matches a text. -/
def ofLiteral (value : Datum) : Except BuildError Expr := literal <$> textOf value

/-- The expression that matches a text in any case of its letters. -/
def ofInsensitive (value : Datum) : Except BuildError Expr :=
  (fun text => terminal (.insensitive text)) <$> textOf value

/-- The expression that matches one character between two characters. -/
def ofRange (low high : String) : Except BuildError Expr :=
  match low.toList, high.toList with
  | [first], [last] =>
    if last < first then .error (.emptyRange low high) else .ok (charRange first last)
  | _, _ => .error .rangeBounds

/-- The expression that skips to the next of some texts. -/
def ofDelimiters : List String → Except BuildError Expr
  | [] => .error .noDelimiter
  | first :: rest => .ok (terminal (.skipUntil first rest))

/-- The expression that skips a number of characters. -/
def ofCount (count : Int) : Except BuildError Expr :=
  if count < 0 then .error .negativeCount else .ok (terminal (.skipChars count.toNat))

/-- The sequence of some operands. -/
def ofItems (items : List Operand) : Except BuildError Expr :=
  if items.isEmpty then .error .emptySeq else do Operand.seqOf (← Operand.toExprs items)

/-- The choice between some operands. -/
def ofAlternatives (items : List Operand) : Except BuildError Expr :=
  if items.isEmpty then .error .emptyChoice else do Operand.choiceOf (← Operand.toExprs items)

/-- The repetition of an operand within bounds. -/
def ofRep (body : Operand) (min : Int) (max : Option Int) : Except BuildError Expr :=
  if min < 0 || max.any (· < min) then .error (.repBounds min max)
  else do return rep (← body.toExpr) min.toNat (max.map Int.toNat)

/-- The operand that makes another one optional. The mark for it stands for the complement where the
operand is a whole number or a truth value, which counts as zero or one. -/
def optional : Operand → Except BuildError Operand
  | .expr e => .ok (.expr (opt e))
  | .datum (.int value) => .ok (.datum (.int (-value - 1)))
  | .datum (.bool value) => .ok (.datum (.int (if value then -2 else -1)))
  | other => .error (.notOptional other.typeName)

/-- The kind of rule that a value names. -/
def kindOf (kind : Datum) : Except BuildError RuleKind :=
  match kind with
  | .text name =>
    match RuleKind.ofName? name with
    | some found => .ok found
    | none => .error (.unknownKind kind)
  | _ => .error (.unknownKind kind)

/-- The rule with a tag, a name, a kind and an operand as its body. -/
def ofRule (tag : Nat) (name : String) (kind : Datum) (body : Operand) :
    Except BuildError Rule := do
  let kind ← kindOf kind
  return ⟨tag, name, kind, ← body.toExpr⟩

end Peg.Expr
