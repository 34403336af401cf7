import Peg.Text.LiteralForm
import Peg.Text.Quoted

/-!
Why a match failed at a place. Most failures are expectations: they have a label that names what
the input should have been there. The others are about the stack or about a limit. A failure may be
nested in the rules that were being matched, outermost first.
-/

namespace Peg

/-- The reason for a failure to match. -/
inductive Failure where
  /-- A text was expected, whatever the case of its letters if `ignoreCase`. -/
  | literal (text : String) (ignoreCase : Bool)
  /-- A character of a range was expected. -/
  | charRange (low high : String)
  /-- What a built-in expression of this name matches was expected. -/
  | builtin (name : String)
  /-- The expression was, or was not, to match ahead. -/
  | predicate (positive : Bool) (expr : String)
  /-- The stack has no item. -/
  | emptyStack
  /-- The stack has no such slice. -/
  | sliceOutOfBounds (start : Int) (stop : Option Int)
  /-- A repetition went on beyond the limit. -/
  | repeatLimit (limit : Int)
  /-- A failure inside a rule. -/
  | nested (rule : String) (cause : Failure)
deriving DecidableEq

namespace Failure

/-- The text of a slice of the stack with the given bounds. -/
def sliceLabel (start : Int) (stop : Option Int) : String :=
  let last := match stop with
    | none => ""
    | some stop => toString stop
  s!"PEEK[{start}..{last}]"

/-- The text that stands for a failure in a list of expectations. -/
def label : Failure → String
  | literal text ignoreCase => (if ignoreCase then "^" else "") ++ Text.quote '"' text
  | charRange low high => Text.quote '\'' low ++ ".." ++ Text.quote '\'' high
  | builtin name => name
  | predicate positive expr => (if positive then "&" else "!") ++ expr
  | emptyStack => "a non-empty stack"
  | sliceOutOfBounds start stop => sliceLabel start stop
  | repeatLimit limit => s!"at most {limit} repetitions"
  | nested _ cause => cause.label

/-- The sentence that describes a failure. -/
def describe : Failure → String
  | literal text ignoreCase => "expected " ++ (literal text ignoreCase).label
  | charRange low high => "expected a character in " ++ (charRange low high).label
  | builtin name => "expected " ++ name
  | predicate true expr => s!"expected {expr} to match here"
  | predicate false expr => s!"expected {expr} not to match here"
  | emptyStack => "the backreference stack is empty"
  | sliceOutOfBounds start stop => s!"stack slice {sliceLabel start stop} is out of bounds"
  | repeatLimit limit => s!"too many repetitions (the limit is {limit})"
  | nested _ cause => cause.describe

/-- Whether a failure is about what the input should be, and so is listed rather than described.
A nested failure always is. -/
def isExpectation : Failure → Bool
  | emptyStack | sliceOutOfBounds _ _ | repeatLimit _ => false
  | _ => true

/-- The failure inside all its rules. -/
def innermost : Failure → Failure
  | nested _ cause => cause.innermost
  | failure => failure

/-- The rules that a failure is nested in, outermost first. -/
def ruleChain : Failure → List String
  | nested rule cause => rule :: cause.ruleChain
  | _ => []

/-- A failure inside the given rules, outermost first. -/
def nestInRules (failure : Failure) (rules : List String) : Failure :=
  rules.foldr nested failure

/-- The name of the kind of a failure. -/
def kindName : Failure → String
  | literal .. => "UnmatchedLiteral"
  | charRange .. => "UnmatchedCharRange"
  | builtin _ => "UnmatchedBuiltin"
  | predicate .. => "PredicateFailed"
  | emptyStack => "EmptyStack"
  | sliceOutOfBounds .. => "SliceOutOfBound"
  | repeatLimit _ => "RepeatLimitExceeded"
  | nested .. => "NestedRuleFailure"

/-- The form of a truth value. -/
def boolForm (value : Bool) : String := if value then "True" else "False"

/-- The fields of a failure, each with its name. -/
def fieldForms : Failure → List (String × String)
  | literal text ignoreCase =>
    [("literal", Text.literalForm text), ("ignore_case", boolForm ignoreCase)]
  | charRange low high => [("low", Text.literalForm low), ("high", Text.literalForm high)]
  | builtin name => [("name", Text.literalForm name)]
  | predicate positive expr => [("positive", boolForm positive), ("expr", Text.literalForm expr)]
  | emptyStack => []
  | sliceOutOfBounds start stop =>
    [("start", toString start), ("end", match stop with
      | none => "None"
      | some stop => toString stop)]
  | repeatLimit limit => [("limit", toString limit)]
  | nested rule cause =>
    let fields := cause.fieldForms.map fun field => field.1 ++ "=" ++ field.2
    [("rule", Text.literalForm rule),
      ("cause", cause.kindName ++ "(" ++ ", ".intercalate fields ++ ")")]

/-- The form in which a message shows a failure: its kind and its named fields. -/
def form (failure : Failure) : String :=
  let fields := failure.fieldForms.map fun field => field.1 ++ "=" ++ field.2
  failure.kindName ++ "(" ++ ", ".intercalate fields ++ ")"

/-- Why a failure cannot be put into words. -/
inductive WordingError where
  /-- No more is known than that something failed, and that has no label. -/
  | noLabel
deriving DecidableEq

/-- The wording of an error. -/
def WordingError.message : WordingError → String
  | noLabel => "label"

/-- Puts a failure into words, if it is known what failed. -/
def wording (failure? : Option Failure) (words : Failure → String) : Except WordingError String :=
  match failure? with
  | some failure => .ok (words failure)
  | none => .error .noLabel

end Failure

end Peg
