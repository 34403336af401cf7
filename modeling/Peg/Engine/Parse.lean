import Peg.Engine.Machine
import Peg.Expr.Build

/-!
Parsing a text with an expression: either a prefix of the text, or the whole of it, where ignored
text may follow unless the expression is an atomic rule. A parse that fails gives a report of the
furthest failures.
-/

namespace Peg

/-- What a call may set; what it leaves out has a default. -/
structure Settings where
  /-- The limit of repetitions, where no number means no limit. -/
  repeatLimit : Option (Option Int) := none
  /-- The text to be ignored, where no operand means none. -/
  whitespace : Option (Option Operand) := none
  /-- Further text to be ignored, where no operand means none. -/
  comment : Option (Option Operand) := none
  /-- Whether the trace is kept. -/
  tracing : Bool := false

/-- The limit of repetitions where none is set. -/
def defaultRepeatLimit : Int := 1024

/-- The number of moves that a parse is given where no other number is asked for. -/
def ampleFuel : Nat := 1000000000000000000

/-- The environment for a text with the given settings. Of several wrong arguments the text is
reported first, then the limit, the white space and the comment. -/
def Env.ofSettings (text : Datum) (rules : List (String × Expr)) (definitions : Definitions)
    (settings : Settings) : Except BuildError Env := do
  let text ← Expr.textOf text
  let limit := settings.repeatLimit.getD (some defaultRepeatLimit)
  if limit.any (· < 0) then throw .negativeLimit
  let whitespace ← (settings.whitespace.getD none).mapM Operand.toExpr
  let comment ← (settings.comment.getD none).mapM Operand.toExpr
  return { input := .ofString 0 text, rules, definitions, whitespace, comment,
           repeatLimit := limit.map Int.toNat, tracing := settings.tracing }

namespace Env

/-- Whether an expression leads, through at most `depth` references and lazy expressions, to a rule
that forces itself to be atomic. -/
def isAtomicWithin (env : Env) : (depth : Nat) → Expr → Bool
  | _, .rule _ _ kind _ => kind.forcesAtomic
  | depth + 1, .ref name =>
    match env.rules.lookup name with
    | some target => env.isAtomicWithin depth target
    | none => false
  | depth + 1, .lazy cell =>
    match env.definitions.resolve cell with
    | .ok target => env.isAtomicWithin depth target
    | .error _ => false
  | _, _ => false

/-- Whether an expression leads to a rule that forces itself to be atomic. A way that is longer than
all rules and definitions together runs in a circle. -/
def isAtomic (env : Env) (expr : Expr) : Bool :=
  env.isAtomicWithin (env.rules.length + env.definitions.length + 1) expr

end Env

/-- The result of a parse that was not broken off. -/
abbrev Parsed := Except Report Match

/-- Reports the furthest failures. -/
def reportFailure (env : Env) : Action Parsed := do
  let report ← Action.gets fun state => state.tracker.report env.input
  Action.emit env (.parseFailed report.offset report.expected)
  return .error report

/-- Matches an expression against a prefix of the text. -/
def parsePartial (env : Env) (fuel : Nat) (expr : Expr) : Action Parsed := do
  match ← run env fuel expr (.start env.input) false with
  | some found => return .ok found
  | none => reportFailure env

/-- Matches what may stand between a match and the end of the text. -/
def matchRest (env : Env) (fuel : Nat) (expr : Expr) (here : Position) : Action Position := do
  if env.isAtomic expr then return here
  else return Clause.afterGap here (← run env fuel .ignored here false)

/-- Matches an expression against the whole text. -/
def parse (env : Env) (fuel : Nat) (expr : Expr) : Action Parsed := do
  match ← parsePartial env fuel expr with
  | .error report => return .error report
  | .ok found =>
    let stop ← matchRest env fuel expr found.stop
    match ← run env fuel (.terminal .endOfInput) stop false with
    | some _ => return .ok ⟨stop, found.node⟩
    | none => reportFailure env

/-- Why a call gives no match. -/
inductive CallError where
  /-- The text does not match. -/
  | rejected (report : Report)
  /-- Something of a type that lacks a property was to parse the text, or to be told of. -/
  | lacks (typeName property : String)
  /-- The call was broken off, or never began. -/
  | fault (cause : Fault)
  /-- The call did not end within its fuel. -/
  | exhausted

/-- What comes of a call. -/
structure Reply where
  /-- The match, or why there is none. -/
  answer : Except CallError Match
  /-- The trace, in the order of its events. -/
  trace : List TraceEvent
  /-- The lazy expressions that have been looked up by now. -/
  forced : List LazyCell

/-- What comes of a parse that starts after the given lazy expressions were looked up. -/
def Reply.ofAction (action : Action Parsed) (forced : List LazyCell) : Reply :=
  match action { forced } with
  | .done (.ok found) state => ⟨.ok found, state.trace.reverse, state.forced⟩
  | .done (.error report) state => ⟨.error (.rejected report), state.trace.reverse, state.forced⟩
  | .fault cause state => ⟨.error (.fault cause), state.trace.reverse, state.forced⟩
  | .exhausted => ⟨.error .exhausted, [], forced⟩

/-- A call to match a text. -/
structure Call where
  /-- The text. -/
  text : Datum
  /-- Whether the whole text is to be matched. -/
  whole : Bool := true
  /-- What the call sets. -/
  settings : Settings := {}

/-- Calls a parse of an expression with a table of rules. -/
def Call.parse (call : Call) (rules : List (String × Expr)) (definitions : Definitions)
    (forced : List LazyCell) (operand : Operand) (fuel : Nat := ampleFuel) : Reply :=
  let prepared := do
    let expr ← operand.toExpr
    return (expr, ← Env.ofSettings call.text rules definitions call.settings)
  match prepared with
  | .error error => ⟨.error (.fault (.build error)), [], forced⟩
  | .ok (expr, env) =>
    .ofAction (if call.whole then Peg.parse env fuel expr else parsePartial env fuel expr) forced

/-- Calls a parse that an operand is to do by itself, which only an expression can. -/
def Call.parseAlone (call : Call) (rules : List (String × Expr)) (definitions : Definitions)
    (forced : List LazyCell) (operand : Operand) (fuel : Nat := ampleFuel) : Reply :=
  match operand with
  | .expr e => call.parse rules definitions forced (.expr e) fuel
  | other =>
    let property := if call.whole then "parse" else "parse_partial"
    ⟨.error (.lacks other.shortTypeName property), [], forced⟩

end Peg
