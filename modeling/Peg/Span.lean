import Peg.Input
import Peg.Text.LiteralForm

/-!
Spans of an input. A span has two signed bounds in order; its text is the slice between them, so a
span may reach beyond the text.
-/

namespace Peg

/-- What cannot be done with positions and spans. -/
inductive PositionError where
  /-- There is no position at this offset. -/
  | outside (offset : Int)
  /-- Two positions of different inputs have no span between them. -/
  | differentInputs
  /-- A span would end before it starts. -/
  | reversed (start stop : Int)
deriving DecidableEq

/-- The wording of an error. -/
def PositionError.message : PositionError → String
  | outside offset => s!"Offset {offset} is outside of the input."
  | differentInputs => "Positions refer to different inputs."
  | reversed start stop => s!"Invalid span: end {stop} is before start {start}."

/-- A part of an input, from `start` up to `stop`. -/
structure Span where
  /-- The input that the span is a part of. -/
  source : Input
  /-- The bound at which the span starts. -/
  start : Int
  /-- The bound before which the span ends. -/
  stop : Int
  /-- The bounds are in order. -/
  start_le_stop : start ≤ stop := by omega

namespace Span

/-- The span between two bounds, if they are in order. -/
def between (source : Input) (start stop : Int) : Except PositionError Span :=
  if h : start ≤ stop then .ok ⟨source, start, stop, h⟩ else .error (.reversed start stop)

/-- The text of a span. -/
def text (span : Span) : String := span.source.slice span.start span.stop

/-- Whether two spans are the same part of the same input. -/
def same (a b : Span) : Bool := a.source.id == b.source.id && a.start == b.start && a.stop == b.stop

/-- The form in which a message shows a span. -/
def form (span : Span) : String :=
  s!"Span({span.start}, {span.stop}, {Text.literalForm span.text})"

end Span

end Peg
