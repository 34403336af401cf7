import Peg.Expr.Definitions
import Peg.Node.Basic
import Peg.Position
import Peg.Report
import Peg.Stack
import Peg.Trace

/-!
What matching an expression works with. The environment stays the same during a parse; the state is
changed by matching and is kept where a match fails or is broken off by a fault. An action takes a
state to an outcome: a value with the next state, a fault with the state it left, or no answer
within the fuel that was given.
-/

namespace Peg

/-- Why matching was broken off. -/
inductive Fault where
  /-- A reference names no rule. -/
  | undefinedRule (name : String)
  /-- An expression does not say how it matches. -/
  | noMatcher
  /-- A definition stands for no expression. -/
  | build (error : BuildError)
  /-- A position or a span cannot be made. -/
  | position (error : PositionError)
  /-- The stack cannot do what was asked of it. -/
  | stack (error : StackError)
  /-- An expression is to be shown whose text has no end. -/
  | endlessText

/-- The wording of a fault. -/
def Fault.message : Fault → String
  | undefinedRule name => "Undefined rule: " ++ Text.literalForm name
  | noMatcher => "_parse"
  | build error => error.message
  | position error => error.message
  | stack error => error.message
  | endlessText => "maximum recursion depth exceeded"

/-- What stays the same during a parse. -/
structure Env where
  /-- The input. -/
  input : Input
  /-- The table of rules, by name. -/
  rules : List (String × Expr) := []
  /-- The definitions that lazy expressions stand for. -/
  definitions : Definitions := []
  /-- The text to be ignored, if any. -/
  whitespace : Option Expr := none
  /-- Further text to be ignored, if any. -/
  comment : Option Expr := none
  /-- How often a repetition may match, if that is limited. -/
  repeatLimit : Option Nat := none
  /-- Whether the trace is kept. -/
  tracing : Bool := false

/-- The expressions whose matches are ignored, in the order in which they are tried. -/
def Env.skippers (env : Env) : List Expr := [env.whitespace, env.comment].filterMap id

/-- What matching changes. -/
structure State where
  /-- The spans that were put on the stack. -/
  stack : Stack Span := {}
  /-- The furthest failures. -/
  tracker : Tracker := {}
  /-- The events of the trace, latest first. -/
  trace : List TraceEvent := []
  /-- The lazy expressions that were looked up. -/
  forced : List LazyCell := []

/-- A successful match. -/
structure Match where
  /-- Where the match ends. -/
  stop : Position
  /-- What was matched. Ignored text has no node. -/
  node : Option Node

/-- How an action ends. -/
inductive Outcome (α : Type) where
  /-- It answers a value. -/
  | done (value : α) (state : State)
  /-- It is broken off. -/
  | fault (cause : Fault) (state : State)
  /-- It does not end within the fuel that it was given. -/
  | exhausted

/-- What takes a state to an outcome. -/
def Action (α : Type) : Type := State → Outcome α

namespace Action

variable {α β : Type}

/-- Answers a value at once. -/
@[inline] protected def pure (value : α) : Action α := fun state => .done value state

/-- Goes on with the value that an action answers. -/
@[inline] protected def bind (first : Action α) (next : α → Action β) : Action β := fun state =>
  match first state with
  | .done value state => next value state
  | .fault cause state => .fault cause state
  | .exhausted => .exhausted

instance : Monad Action where
  pure := Action.pure
  bind := Action.bind

/-- Does not end. -/
def exhausted : Action α := fun _ => .exhausted

/-- Breaks off. -/
def fail (cause : Fault) : Action α := fun state => .fault cause state

/-- Answers something about the state. -/
@[inline] def gets (f : State → α) : Action α := fun state => .done (f state) state

/-- Changes the state. -/
@[inline] def modify (f : State → State) : Action Unit := fun state => .done () (f state)

/-- Changes the tracker. -/
@[inline] def track (f : Tracker → Tracker) : Action Unit :=
  modify fun state => { state with tracker := f state.tracker }

/-- Answers a value, or breaks off with the fault of an error. -/
def ofExcept {ε : Type} (fault : ε → Fault) : Except ε α → Action α
  | .ok value => pure value
  | .error error => fail (fault error)

/-- Changes the stack in a way that it may refuse. -/
def changeStack (f : Stack Span → Except StackError (Stack Span)) : Action Unit := do
  let stack ← ofExcept .stack (f (← gets State.stack))
  modify fun state => { state with stack }

/-- Opens a snapshot of the stack. -/
def snapshot : Action Unit := modify fun state => { state with stack := state.stack.snapshot }

/-- Goes back to the innermost snapshot of the stack. -/
def restore : Action Unit := changeStack Stack.restore

/-- Keeps the changes since the innermost snapshot of the stack. -/
def commit : Action Unit := changeStack Stack.commit

/-- The span between two positions. -/
def span (start stop : Position) : Action Span := ofExcept .position (start.spanTo stop)

/-- Adds an event to the trace, if it is kept. -/
def emit (env : Env) (event : TraceEvent) : Action Unit :=
  if env.tracing then modify fun state => { state with trace := event :: state.trace }
  else pure ()

/-- Runs an action inside a scope of the tracker, which is closed again however the action ends. -/
def within (scope : Scope) (body : Action α) : Action α := fun state =>
  match body { state with tracker := state.tracker.enter scope } with
  | .done value state => .done value { state with tracker := state.tracker.leave scope }
  | .fault cause state => .fault cause { state with tracker := state.tracker.leave scope }
  | .exhausted => .exhausted

/-- Runs an action inside a scope, if one is given. -/
def withinAny (scope? : Option Scope) (body : Action α) : Action α :=
  match scope? with
  | some scope => within scope body
  | none => body

/-- The text of an expression as it is shown now. Where it has no end, showing it breaks off. -/
def textOf (env : Env) (expr : Expr) : Action String := do
  match ← gets fun state => expr.text env.definitions state.forced with
  | some text => return text
  | none => fail .endlessText

/-- Looks up what a lazy expression stands for. -/
def force (env : Env) (cell : LazyCell) : Action Expr := do
  let target ← ofExcept .build (env.definitions.resolve cell)
  modify fun state =>
    if cell ∈ state.forced then state else { state with forced := cell :: state.forced }
  return target

/-- Looks up the rule that a reference names. -/
def lookupRule (env : Env) (name : String) : Action Expr :=
  match env.rules.lookup name with
  | some target => pure target
  | none => fail (.undefinedRule name)

end Action

end Peg
