import Peg.Engine.Action

/-!
How terminals match. A terminal that matches answers a leaf of the tree; one that does not records
what it expected, at the first character that differs or at the place where it was tried.
-/

namespace Peg.Terminal

/-- The answer of a terminal that matched up to `stop`. -/
def found (kind : TerminalKind) (start stop : Position) (value : String) :
    Action (Option Match) := do
  let span ← Action.span start stop
  return some ⟨stop, some (.terminal kind span value)⟩

/-- The answer of a terminal that matched up to `stop` and shows the text in between. -/
def foundText (kind : TerminalKind) (start stop : Position) : Action (Option Match) := do
  let span ← Action.span start stop
  return some ⟨stop, some (.terminal kind span span.text)⟩

/-- The answer of a terminal that did not match. -/
def missed (failure : Failure) (offset : Nat) : Action (Option Match) := do
  Action.track (·.recordFailure failure offset)
  return none

/-- Matches a text that the stack holds. A mismatch is recorded at the character that differs. -/
def matchText (here : Position) (text : String) : Action (Option Position) := do
  match here.matchLiteral text with
  | some stop => return some stop
  | none =>
    Action.track (·.recordFailure (.literal text false) (here.mismatchOffset text false))
    return none

/-- Matches the top of the stack, then changes the stack. -/
def matchTop (kind : TerminalKind) (consume : Stack Span → Stack Span) (here : Position) :
    Action (Option Match) := do
  match (← Action.gets State.stack).peek? with
  | none =>
    Action.track (·.recordEmptyStack here.offset)
    return none
  | some top =>
    match ← matchText here top.text with
    | none => return none
    | some stop =>
      Action.modify fun state => { state with stack := consume state.stack }
      found kind here stop top.text

/-- Matches the texts of spans one after the other, then changes the stack. -/
def matchSpans (kind : TerminalKind) (consume : Stack Span → Stack Span) (here : Position)
    (spans : List Span) : Action (Option Match) := do
  match ← matchText here (String.join (spans.map Span.text)) with
  | none => return none
  | some stop =>
    Action.modify fun state => { state with stack := consume state.stack }
    foundText kind here stop

/-- Matches a slice of the stack, then changes the stack. -/
def matchSlice (kind : TerminalKind) (consume : Stack Span → Stack Span) (start : Int)
    (stop : Option Int) (here : Position) : Action (Option Match) := do
  match (← Action.gets State.stack).slice? start stop with
  | none =>
    Action.track (·.recordOutOfBounds start stop here.offset)
    return none
  | some spans => matchSpans kind consume here spans

/-- The line endings with their names. The longest comes first, so that it is not taken for two. -/
def lineEndings : List (String × String) := [("\r\n", "CRLF"), ("\n", "LF"), ("\r", "CR")]

/-- Matches the first of some line endings that comes next. -/
def matchLineEnding (here : Position) : List (String × String) → Action (Option Match)
  | [] => missed (.builtin "NEWLINE") here.offset
  | (ending, name) :: rest =>
    match here.matchLiteral ending with
    | some stop => found .newline here stop name
    | none => matchLineEnding here rest

/-- Records each of some texts as expected at an offset. -/
def missAll (offset : Nat) : List String → Action (Option Match)
  | [] => return none
  | text :: rest => do
    Action.track (·.recordFailure (.literal text false) offset)
    missAll offset rest

/-- Matches a terminal at a position. -/
def attempt (terminal : Terminal) (here : Position) : Action (Option Match) :=
  match terminal with
  | literal text =>
    match here.matchLiteral text with
    | some stop => found .literal here stop text
    | none => missed (.literal text false) (here.mismatchOffset text false)
  | insensitive text =>
    match here.matchIgnoringCase text with
    | some (stop, actual) => found .insens here stop actual
    | none => missed (.literal text true) (here.mismatchOffset text true)
  | charRange low high =>
    match here.matchRange low high with
    | some (stop, c) => found .char here stop c.toString
    | none => missed (.charRange low.toString high.toString) here.offset
  | any =>
    match here.matchAny with
    | some (stop, c) => found .any here stop c.toString
    | none => missed (.builtin "ANY") here.offset
  | startOfInput =>
    if here.atStart then found .soi here here "" else missed (.builtin "SOI") here.offset
  | endOfInput =>
    if here.atEnd then found .eoi here here "" else missed (.builtin "EOI") here.offset
  | newline => matchLineEnding here lineEndings
  | skipUntil first rest =>
    match here.skipUntil (first :: rest) with
    | some stop => foundText .skip here stop
    | none => missAll here.input.size (first :: rest)
  | skipChars count => do
    match ← Action.ofExcept .position (here.skip count) with
    | some stop => foundText .skip here stop
    | none => missed (.builtin (skipChars count).text) here.offset
  | alwaysFail => return none
  | empty => found .empty here here ""
  | peek => matchTop .peek id here
  | pop => matchTop .pop (fun stack => stack.pop.2) here
  | peekAll => matchSlice .peekAll id 0 none here
  | popAll => matchSlice .popAll Stack.clear 0 none here
  | peekSlice start stop => matchSlice .peekSlice id start stop here
  | drop => do
    match (← Action.gets State.stack).pop with
    | (none, _) =>
      Action.track (·.recordEmptyStack here.offset)
      return none
    | (some top, stack) =>
      Action.modify fun state => { state with stack }
      found .drop here here top.text

end Peg.Terminal
