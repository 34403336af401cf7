import Peg.Engine.Clause
import Peg.Engine.Terminal

/-!
The meaning of expressions, by direct recursion: to match an expression, match its parts and make
of their results what the clause of the expression says. The fuel bounds how deep expressions may
stand inside each other and how long each repetition may go on; an answer does not depend on how
much was left of it.
-/

namespace Peg.Eval

/-- What matches an expression at a position, atomically or not. -/
abbrev Matcher := Expr → Position → Bool → Action (Option Match)

/-- Skips ignored text. -/
def gap (run : Matcher) (here : Position) : Action Position := do
  return Clause.afterGap here (← run .ignored here false)

/-- Skips ignored text where it may stand. It may not in front of the first part and in what is
atomic. -/
def gapUnless (run : Matcher) (forbidden : Bool) (here : Position) : Action Position :=
  if forbidden then pure here else gap run here

/-- Matches the remaining items of a sequence. -/
def items (run : Matcher) (atomic : Bool) (start : Position) :
    List Expr → Position → Array (Option Node) → Action (Option Match)
  | [], here, found => Clause.seq start here found
  | expr :: rest, here, found => do
    let here ← gapUnless run (found.isEmpty || atomic) here
    match ← run expr here atomic with
    | none => return none
    | some item => items run atomic start rest item.stop (found.push item.node)

/-- Matches the first of the remaining alternatives that does. -/
def alternatives (run : Matcher) (atomic : Bool) (start : Position) :
    (index : Nat) → List Expr → Action (Option Match)
  | _, [] => return none
  | index, expr :: rest => do
    match ← run expr start atomic with
    | some found => Clause.choice start index found
    | none => alternatives run atomic start (index + 1) rest

/-- Matches a part again and again, each time after ignored text unless atomic. -/
def repetition (env : Env) (run : Matcher) (body : Expr) (min : Nat) (max : Option Nat)
    (atomic : Bool) (start : Position) :
    (fuel : Nat) → Position → Array (Option Node) → Action (Option Match)
  | 0, _, _ => Action.exhausted
  | fuel + 1, here, found => do
    if max.any (· ≤ found.size) then Clause.rep min start here found
    else
      let here ← gapUnless run (found.isEmpty || atomic) here
      match ← run body here atomic with
      | none => Clause.rep min start here found
      | some item =>
        let found := found.push item.node
        match Clause.beyondLimit env found.size with
        | some limit => Clause.repLimit limit item.stop
        | none => repetition env run body min max atomic start fuel item.stop found

/-- Matches one kind of ignored text as often as it matches anything. Answers where it ended and
whether it, or what came before, matched anything. -/
def skipOne (run : Matcher) (skipper : Expr) :
    (fuel : Nat) → Position → (progress : Bool) → Action (Position × Bool)
  | 0, _, _ => Action.exhausted
  | fuel + 1, here, progress => do
    match ← run skipper here true with
    | none => return (here, progress)
    | some found =>
      if found.stop.same here then return (here, progress)
      else skipOne run skipper fuel found.stop true

/-- Matches each kind of ignored text in turn. -/
def skipEach (run : Matcher) (fuel : Nat) :
    List Expr → Position → (progress : Bool) → Action (Position × Bool)
  | [], here, progress => return (here, progress)
  | skipper :: rest, here, progress => do
    let (here, progress) ← skipOne run skipper fuel here progress
    skipEach run fuel rest here progress

/-- Matches all kinds of ignored text in turn until none of them matches anything. -/
def skipAll (run : Matcher) (skippers : List Expr) :
    (fuel : Nat) → Position → Action Position
  | 0, _ => Action.exhausted
  | fuel + 1, here => do
    let (here, progress) ← skipEach run fuel skippers here false
    if progress then skipAll run skippers fuel here else return here

/-- Matches ignored text. Where nothing is ignored, nothing is tried. -/
def ignored (env : Env) (run : Matcher) (fuel : Nat) (start : Position) (atomic : Bool) :
    Action (Option Match) := do
  if atomic || env.skippers.isEmpty then return some ⟨start, none⟩
  else
    let stop ← Action.within .muted (skipAll run env.skippers fuel start)
    return some ⟨stop, none⟩

/-- Matches a part twice. -/
def pair (run : Matcher) (body : Expr) (start : Position) (atomic : Bool) :
    Action (Option Match) := do
  match ← run body start atomic with
  | none => return none
  | some first =>
    match ← run body first.stop atomic with
    | none => return none
    | some second => Clause.pair start first second

end Eval

/-- Matches an expression at a position. -/
def eval (env : Env) : (fuel : Nat) → Eval.Matcher
  | 0, _, _, _ => Action.exhausted
  | fuel + 1, expr, start, atomic =>
    let run := eval env fuel
    match expr with
    | .terminal leaf => leaf.attempt start
    | .seq first rest => Eval.items run atomic start (first :: rest) start #[]
    | .choice first rest => Eval.alternatives run atomic start 0 (first :: rest)
    | .opt body => do
      Action.snapshot
      Clause.opt start (← run body start atomic)
    | .rep body min max => Eval.repetition env run body min max atomic start fuel start #[]
    | .positive body => do
      Action.snapshot
      Clause.positive env body start
        (← Action.within (.lookahead .positive) (run body start atomic))
    | .negative body => do
      Action.snapshot
      Clause.negative env body start
        (← Action.within (.lookahead .negative) (run body start atomic))
    | .restorable body => do
      Action.snapshot
      Clause.restorable (← run body start atomic)
    | .push body => do
      Clause.push start (← run body start atomic)
    | .rule _ name kind body => do
      Action.emit env (.entered name start.offset)
      Clause.rule env name kind start
        (← Action.withinAny (Clause.ruleScope name kind)
          (run body start (kind.bodyAtomic atomic)))
    | .ref name => do
      run (← Action.lookupRule env name) start atomic
    | .lazy cell => do
      run (← Action.force env cell) start atomic
    | .ignored => Eval.ignored env run fuel start atomic
    | .pair body => Eval.pair run body start atomic
    | .abstract => Action.fail .noMatcher

end Peg
