import Peg.Engine.Clause
import Peg.Engine.Terminal

/-!
The machine that matches expressions. Instead of calling itself for the parts of an expression, it
keeps the expressions that wait for a part as a list of frames, the innermost first. So neither the
nesting of a grammar nor that of a text is bounded by anything but memory.

A move of the machine is to answer a result to the innermost frame, to match another expression in
place of the present one, or to suspend the present one in a frame and match a part of it. A fault
halts the machine where it stands, with frames that still wait and scopes that they hold open; the
scopes are closed when the frames are given up.
-/

namespace Peg

/-- The fixed part of a repetition that is under way. -/
structure Repetition where
  /-- What is repeated. -/
  body : Expr
  /-- The least number of matches. -/
  min : Nat
  /-- The greatest number of matches, if there is one. -/
  max : Option Nat
  /-- Whether nothing is skipped between matches. -/
  atomic : Bool
  /-- Where the repetition started. -/
  start : Position

/-- An expression that waits for the result of a part. -/
inductive Frame where
  /-- A sequence waits for an item. -/
  | seqItem (start : Position) (rest : List Expr) (found : Array (Option Node)) (atomic : Bool)
  /-- A sequence waits for the ignored text in front of its next item. -/
  | seqGap (start here : Position) (next : Expr) (rest : List Expr) (found : Array (Option Node))
  /-- A choice waits for the alternative with this index. -/
  | choice (start : Position) (index : Nat) (rest : List Expr) (atomic : Bool)
  /-- An optional part is being tried. -/
  | opt (start : Position)
  /-- A repetition waits for a match of its body, which is being tried at `here`. -/
  | repItem (loop : Repetition) (here : Position) (found : Array (Option Node))
  /-- A repetition waits for the ignored text in front of its next match. -/
  | repGap (loop : Repetition) (here : Position) (found : Array (Option Node))
  /-- A positive lookahead waits for its body. -/
  | positive (body : Expr) (start : Position)
  /-- A negative lookahead waits for its body. -/
  | negative (body : Expr) (start : Position)
  /-- The stack may have to be restored. -/
  | restorable
  /-- A match is to be put on the stack. -/
  | push (start : Position)
  /-- A rule waits for its body. -/
  | rule (name : String) (kind : RuleKind) (start : Position)
  /-- Ignored text is being skipped: `skipper` is being tried at `here`, then come the others. -/
  | skip (here : Position) (skipper : Expr) (rest : List Expr) (progress : Bool)
  /-- A pair waits for its first match. -/
  | pairFirst (body : Expr) (start : Position) (atomic : Bool)
  /-- A pair waits for its second match. -/
  | pairSecond (start : Position) (first : Match)

/-- The scope of the tracker that a frame holds open. -/
def Frame.scope? : Frame → Option Scope
  | positive .. => some (.lookahead .positive)
  | negative .. => some (.lookahead .negative)
  | rule name kind _ => Clause.ruleScope name kind
  | skip .. => some .muted
  | _ => none

/-- How the machine comes to a halt. -/
inductive Halt where
  /-- No frame waits for the result. -/
  | answered (result : Option Match) (state : State)
  /-- A fault breaks the matching off while these frames wait, the innermost first. -/
  | raised (cause : Fault) (waiting : List Frame) (state : State)
  /-- The moves that were given are made. -/
  | exhausted

/-- What the machine does next. -/
inductive Move where
  /-- Answer a result to the innermost frame. -/
  | answer (result : Option Match)
  /-- Match an expression in place of the present one. -/
  | enter (expr : Expr) (here : Position) (atomic : Bool)
  /-- Suspend the present expression and match a part of it. -/
  | call (frame : Frame) (expr : Expr) (here : Position) (atomic : Bool)

namespace Machine

/-- Opens a scope, if one is given. -/
def openScope : Option Scope → Action Unit
  | some scope => Action.track (·.enter scope)
  | none => pure ()

/-- Closes a scope, if one is given. -/
def closeScope : Option Scope → Action Unit
  | some scope => Action.track (·.leave scope)
  | none => pure ()

/-- The answer that a clause gives. -/
def conclude (clause : Action (Option Match)) : Action Move := do
  return .answer (← clause)

/-- Goes on with a repetition: it ends, or the next match is tried, or the ignored text before. -/
def continueRep (loop : Repetition) (here : Position) (found : Array (Option Node)) :
    Action Move :=
  if loop.max.any (· ≤ found.size) then conclude (Clause.rep loop.min loop.start here found)
  else if found.isEmpty || loop.atomic then
    return .call (.repItem loop here found) loop.body here loop.atomic
  else return .call (.repGap loop here found) .ignored here false

/-- Goes on to the next kind of ignored text, or to the first one again if anything was skipped. -/
def continueSkip (env : Env) (here : Position) (rest : List Expr) (progress : Bool) :
    Action Move := do
  match rest, env.skippers, progress with
  | skipper :: rest, _, _ => return .call (.skip here skipper rest progress) skipper here true
  | [], skipper :: rest, true => return .call (.skip here skipper rest false) skipper here true
  | [], _, _ =>
    closeScope (some .muted)
    return .answer (some ⟨here, none⟩)

/-- The first move for an expression. -/
def begin (env : Env) (expr : Expr) (start : Position) (atomic : Bool) : Action Move :=
  match expr with
  | .terminal leaf => conclude (leaf.attempt start)
  | .seq first rest => return .call (.seqItem start rest #[] atomic) first start atomic
  | .choice first rest => return .call (.choice start 0 rest atomic) first start atomic
  | .opt body => do
    Action.snapshot
    return .call (.opt start) body start atomic
  | .rep body min max => continueRep ⟨body, min, max, atomic, start⟩ start #[]
  | .positive body => do
    Action.snapshot
    openScope (some (.lookahead .positive))
    return .call (.positive body start) body start atomic
  | .negative body => do
    Action.snapshot
    openScope (some (.lookahead .negative))
    return .call (.negative body start) body start atomic
  | .restorable body => do
    Action.snapshot
    return .call .restorable body start atomic
  | .push body => return .call (.push start) body start atomic
  | .rule _ name kind body => do
    Action.emit env (.entered name start.offset)
    openScope (Clause.ruleScope name kind)
    return .call (.rule name kind start) body start (kind.bodyAtomic atomic)
  | .ref name => do
    return .enter (← Action.lookupRule env name) start atomic
  | .lazy cell => do
    return .enter (← Action.force env cell) start atomic
  | .ignored =>
    if atomic || env.skippers.isEmpty then return .answer (some ⟨start, none⟩)
    else do
      openScope (some .muted)
      continueSkip env start env.skippers false
  | .pair body => return .call (.pairFirst body start atomic) body start atomic
  | .abstract => Action.fail .noMatcher

/-- The next move of a frame that receives the result it waited for. -/
def receive (env : Env) (frame : Frame) (result : Option Match) : Action Move :=
  match frame with
  | .seqItem start rest found atomic =>
    match result with
    | none => return .answer none
    | some item =>
      let found := found.push item.node
      match rest with
      | [] => conclude (Clause.seq start item.stop found)
      | next :: rest =>
        if atomic then return .call (.seqItem start rest found true) next item.stop true
        else return .call (.seqGap start item.stop next rest found) .ignored item.stop false
  | .seqGap start here next rest found =>
    return .call (.seqItem start rest found false) next (Clause.afterGap here result) false
  | .choice start index rest atomic =>
    match result, rest with
    | some found, _ => conclude (Clause.choice start index found)
    | none, [] => return .answer none
    | none, next :: rest => return .call (.choice start (index + 1) rest atomic) next start atomic
  | .opt start => conclude (Clause.opt start result)
  | .repItem loop here found =>
    match result with
    | none => conclude (Clause.rep loop.min loop.start here found)
    | some item =>
      let found := found.push item.node
      match Clause.beyondLimit env found.size with
      | some limit => conclude (Clause.repLimit limit item.stop)
      | none => continueRep loop item.stop found
  | .repGap loop here found =>
    let here := Clause.afterGap here result
    return .call (.repItem loop here found) loop.body here loop.atomic
  | .positive body start => do
    closeScope (some (.lookahead .positive))
    conclude (Clause.positive env body start result)
  | .negative body start => do
    closeScope (some (.lookahead .negative))
    conclude (Clause.negative env body start result)
  | .restorable => conclude (Clause.restorable result)
  | .push start => conclude (Clause.push start result)
  | .rule name kind start => do
    closeScope (Clause.ruleScope name kind)
    conclude (Clause.rule env name kind start result)
  | .skip here skipper rest progress =>
    match result with
    | none => continueSkip env here rest progress
    | some found =>
      if found.stop.same here then continueSkip env here rest progress
      else return .call (.skip found.stop skipper rest true) skipper found.stop true
  | .pairFirst body start atomic =>
    match result with
    | none => return .answer none
    | some first => return .call (.pairSecond start first) body first.stop atomic
  | .pairSecond start first =>
    match result with
    | none => return .answer none
    | some second => conclude (Clause.pair start first second)

/-- Makes moves until no frame waits for the result, or a fault breaks the matching off. -/
def run (env : Env) : (fuel : Nat) → Move → List Frame → State → Halt
  | 0, _, _, _ => .exhausted
  | fuel + 1, move, frames, state =>
    match move, frames with
    | .answer result, [] => .answered result state
    | .answer result, frame :: frames =>
      match receive env frame result state with
      | .done move state => run env fuel move frames state
      | .fault cause state => .raised cause frames state
      | .exhausted => .exhausted
    | .enter expr here atomic, frames =>
      match begin env expr here atomic state with
      | .done move state => run env fuel move frames state
      | .fault cause state => .raised cause frames state
      | .exhausted => .exhausted
    | .call frame expr here atomic, frames =>
      match begin env expr here atomic state with
      | .done move state => run env fuel move (frame :: frames) state
      | .fault cause state => .raised cause (frame :: frames) state
      | .exhausted => .exhausted

/-- Closes the scopes that frames hold open, the innermost first. The machine does not do so itself:
this is what becomes of the frames that wait when a fault is raised. They are given up once the
fault has been handled, and each of them closes its scope on the way out. -/
def unwind (frames : List Frame) (state : State) : State :=
  frames.foldl (fun state frame => match frame.scope? with
    | some scope => { state with tracker := state.tracker.leave scope }
    | none => state) state

end Machine

/-- What is seen of a halt once the frames that wait have been given up. -/
def Halt.settle : Halt → Outcome (Option Match)
  | answered result state => .done result state
  | raised cause waiting state => .fault cause (Machine.unwind waiting state)
  | exhausted => .exhausted

/-- Matches an expression at a position with the machine, in at most `fuel` moves. After a fault,
the state is the one that is left when the fault has been handled. -/
def run (env : Env) (fuel : Nat) (expr : Expr) (start : Position) (atomic : Bool) :
    Action (Option Match) := fun state =>
  (Machine.run env fuel (.enter expr start atomic) [] state).settle

end Peg
