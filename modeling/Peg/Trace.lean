import Peg.Text.LiteralForm

/-!
The trace of a parse: for each rule, when it was tried and how that ended, and for each failed
parse, where it failed and what was expected there.
-/

namespace Peg

/-- The part of the library that an event of the trace comes from. -/
inductive TraceSource where
  /-- The matching of rules. -/
  | rules
  /-- The parse of an expression. -/
  | engine
  /-- The parse of a grammar's rule. -/
  | grammar
deriving DecidableEq

/-- An event of the trace. -/
inductive TraceEvent where
  /-- A rule is tried at an offset. -/
  | entered (rule : String) (offset : Nat)
  /-- A rule that was tried at an offset did not match. -/
  | failed (rule : String) (offset : Nat)
  /-- A rule matched from one offset to another. -/
  | matched (rule : String) (start stop : Nat)
  /-- A parse failed at an offset where these labels were expected. -/
  | parseFailed (offset : Int) (expected : List String)
  /-- The parse of a grammar's rule failed. -/
  | ruleFailed (grammar rule : String) (line column : Int)

namespace TraceEvent

/-- Where an event comes from. -/
def source : TraceEvent → TraceSource
  | entered .. | failed .. | matched .. => .rules
  | parseFailed .. => .engine
  | ruleFailed .. => .grammar

/-- The line of the trace that tells of an event. -/
def message : TraceEvent → String
  | entered rule offset => s!"{rule} ... (at index {offset})"
  | failed rule offset => s!"{rule} failed (at index {offset})"
  | matched rule start stop => s!"{rule} matched {start}..{stop}"
  | parseFailed offset expected =>
    s!"Parse failed at index {offset}: " ++ Text.listForm (expected.map Text.literalForm)
  | ruleFailed grammar rule line column =>
    s!"{grammar}: {rule} failed at line {line}, column {column}"

end TraceEvent

end Peg
