import Peg.Engine.Action

/-!
What each composite expression makes of the results of its parts. A clause takes the place where
the expression was tried and the results, and answers the result of the expression; it also settles
the snapshot of the stack that was opened before.
-/

namespace Peg.Clause

/-- The place after ignored text. Skipping ignored text always matches. -/
def afterGap (here : Position) : Option Match → Position
  | none => here
  | some gap => gap.stop

/-- A sequence whose items have all matched. -/
def seq (start stop : Position) (items : Array (Option Node)) : Action (Option Match) := do
  let span ← Action.span start stop
  return some ⟨stop, some (.seq span items.toList)⟩

/-- A choice of which the alternative with this index matched. -/
def choice (start : Position) (index : Nat) (found : Match) : Action (Option Match) := do
  let span ← Action.span start found.stop
  return some ⟨found.stop, some (.choice span index found.node)⟩

/-- An optional part. -/
def opt (start : Position) : Option Match → Action (Option Match)
  | none => do
    Action.restore
    let span ← Action.span start start
    return some ⟨start, some (.opt span none)⟩
  | some found => do
    Action.commit
    let span ← Action.span start found.stop
    return some ⟨found.stop, some (.opt span found.node)⟩

/-- A repetition that has come to its end. It fails if it has too few items. -/
def rep (min : Nat) (start stop : Position) (items : Array (Option Node)) :
    Action (Option Match) := do
  if items.size < min then return none
  else
    let span ← Action.span start stop
    return some ⟨stop, some (.rep span items.toList)⟩

/-- Whether a number of items is beyond the limit of repetitions. -/
def beyondLimit (env : Env) (count : Nat) : Option Nat :=
  env.repeatLimit.filter (· < count)

/-- A repetition that went beyond the limit. -/
def repLimit (limit : Nat) (here : Position) : Action (Option Match) := do
  Action.track (·.recordRepeatLimit limit here.offset)
  return none

/-- A positive lookahead. -/
def positive (env : Env) (body : Expr) (start : Position) (result : Option Match) :
    Action (Option Match) := do
  Action.restore
  match result with
  | none =>
    let label ← Action.textOf env body
    Action.track (·.recordPredicate true label start.offset)
    return none
  | some found =>
    let span ← Action.span start start
    return some ⟨start, some (.predicate span true found.node)⟩

/-- A negative lookahead. -/
def negative (env : Env) (body : Expr) (start : Position) (result : Option Match) :
    Action (Option Match) := do
  Action.restore
  match result with
  | none =>
    let span ← Action.span start start
    return some ⟨start, some (.predicate span false none)⟩
  | some _ =>
    let label ← Action.textOf env body
    Action.track (·.recordPredicate false label start.offset)
    return none

/-- A part whose changes of the stack are undone if it failed. -/
def restorable : Option Match → Action (Option Match)
  | none => do
    Action.restore
    return none
  | some found => do
    Action.commit
    return some found

/-- A part whose span goes onto the stack. -/
def push (start : Position) : Option Match → Action (Option Match)
  | none => return none
  | some found => do
    let span ← Action.span start found.stop
    Action.modify fun state => { state with stack := state.stack.push span }
    return some ⟨found.stop, some (.push span found.node)⟩

/-- The scope in which the body of a rule is matched. A silent rule has none. -/
def ruleScope (name : String) (kind : RuleKind) : Option Scope :=
  if kind = .silent then none else some (.rule name)

/-- A rule whose body was tried. -/
def rule (env : Env) (name : String) (kind : RuleKind) (start : Position)
    (result : Option Match) : Action (Option Match) := do
  match result with
  | none =>
    Action.emit env (.failed name start.offset)
    return none
  | some found =>
    Action.emit env (.matched name start.offset found.stop.offset)
    if kind = .silent then return some found
    else
      let span ← Action.span start found.stop
      let node := if kind = .atomic then none else found.node
      return some ⟨found.stop, some (.rule name span node)⟩

/-- A pair of matches of one part. -/
def pair (start : Position) (first second : Match) : Action (Option Match) := do
  let span ← Action.span start second.stop
  return some ⟨second.stop, some (.seq span [first.node, second.node])⟩

end Peg.Clause
