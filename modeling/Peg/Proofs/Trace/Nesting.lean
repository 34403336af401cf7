import Peg.Engine.Action

/-!
# Nested logs

What rules write to the trace is read here as a word of brackets: a rule that is tried opens an
entry, and what tells how it ended closes one, which has to be the innermost and that of the same
rule at the same offset. A log is nested if this closes every entry that it opens. The front of a
nested log closes fewer, and then what is open at its end tells which rules have not ended.
-/
namespace Peg

/-- A rule that is tried at an offset. -/
structure Entry where
  /-- The name of the rule. -/
  rule : String
  /-- The offset. -/
  offset : Nat
deriving DecidableEq

/-! ### Entries that are open -/

namespace TraceEvent

/-- The entries that are open after an event, innermost first. There are none if the event does not
fit to those that were open before it. -/
def openAfter? (opened : List Entry) : TraceEvent → Option (List Entry)
  | entered rule offset => some (⟨rule, offset⟩ :: opened)
  | failed rule offset | matched rule offset _ =>
    match opened with
    | [] => none
    | entry :: outer => if entry = ⟨rule, offset⟩ then some outer else none
  | parseFailed .. | ruleFailed .. => none

/-- The event tells of a rule, at places inside a text of this length. -/
def Fits (size : Nat) : TraceEvent → Prop
  | entered _ offset | failed _ offset => offset ≤ size
  | matched _ start stop => start ≤ stop ∧ stop ≤ size
  | parseFailed .. | ruleFailed .. => False

/-- The event that tells how the matching of a rule from some position ended. -/
def ending (rule : String) (start : Position) : Option Match → TraceEvent
  | none => .failed rule start.offset
  | some found => .matched rule start.offset found.stop.offset

theorem openAfter?_ending (rule : String) (start : Position) (result : Option Match)
    (outer : List Entry) :
    (ending rule start result).openAfter? (⟨rule, start.offset⟩ :: outer) = some outer := by
  cases result <;> simp [ending, openAfter?]

/-- What an event opens or closes does not depend on the entries around. -/
theorem openAfter?_append {event : TraceEvent} {opened later : List Entry}
    (reads : event.openAfter? opened = some later) (outer : List Entry) :
    event.openAfter? (opened ++ outer) = some (later ++ outer) := by
  cases event with
  | entered =>
    cases reads
    rfl
  | failed | matched =>
    cases opened with
    | nil => cases reads
    | cons entry opened =>
      simp only [openAfter?, Option.ite_none_right_eq_some, Option.some.injEq] at reads
      obtain ⟨same, rfl⟩ := reads
      simp [openAfter?, same]
  | parseFailed | ruleFailed => cases reads

end TraceEvent

/-- The entries that are open after some events, innermost first, unless one of them does not fit to
those before it. -/
def openEntries (opened : List Entry) (events : List TraceEvent) : Option (List Entry) :=
  events.foldlM TraceEvent.openAfter? opened

section OpenEntries

variable {opened middle later : List Entry} {early late events : List TraceEvent}

theorem openEntries_append (first : openEntries opened early = some middle) :
    openEntries opened (early ++ late) = openEntries middle late := by
  rw [openEntries, List.foldlM_append, ← openEntries, first]
  rfl

theorem openEntries_cons (opened : List Entry) (event : TraceEvent) (events : List TraceEvent) :
    openEntries opened (event :: events) =
      (event.openAfter? opened).bind (openEntries · events) := List.foldlM_cons

theorem openEntries_singleton (opened : List Entry) (event : TraceEvent) :
    openEntries opened [event] = event.openAfter? opened := by
  rw [openEntries_cons]
  cases event.openAfter? opened <;> rfl

/-- Entries around those that are known stay open. -/
theorem openEntries_around (reads : openEntries opened events = some later) (outer : List Entry) :
    openEntries (opened ++ outer) events = some (later ++ outer) := by
  induction events generalizing opened with
  | nil =>
    cases reads
    rfl
  | cons event events ih =>
    rw [openEntries_cons] at reads ⊢
    obtain ⟨next, once, reads⟩ := Option.bind_eq_some_iff.mp reads
    rw [TraceEvent.openAfter?_append once outer]
    exact ih reads

end OpenEntries

/-! ### Nested logs -/

/-- A log of rules that are matched in a text of this length: every entry is closed, the last one
first, by an event that tells how this rule ended. -/
structure Nested (size : Nat) (events : List TraceEvent) : Prop where
  closes : openEntries [] events = some []
  fits : ∀ event ∈ events, event.Fits size

namespace Nested

variable {size : Nat} {events others : List TraceEvent}

theorem nil (size : Nat) : Nested size [] := ⟨rfl, nofun⟩

/-- Entries that are open stay open throughout a nested log. -/
theorem openEntries_eq (nested : Nested size events) (opened : List Entry) :
    openEntries opened events = some opened := openEntries_around nested.closes opened

theorem append (nested : Nested size events) (also : Nested size others) :
    Nested size (events ++ others) where
  closes := (openEntries_append nested.closes).trans also.closes
  fits := List.forall_mem_append.mpr ⟨nested.fits, also.fits⟩

/-- The log of a rule: it is tried, others are matched for it, and it ends. -/
theorem block (nested : Nested size events) {rule : String} {start : Position}
    {result : Option Match} (inside : start.offset ≤ size)
    (ends : (TraceEvent.ending rule start result).Fits size) :
    Nested size (.entered rule start.offset :: events ++ [.ending rule start result]) where
  closes := by
    -- The inner log runs on top of the entry of the rule, which only the last event closes.
    have inner : openEntries [] (.entered rule start.offset :: events) =
        some [⟨rule, start.offset⟩] := nested.openEntries_eq _
    rw [openEntries_append inner, openEntries_singleton, TraceEvent.openAfter?_ending]
  fits := by
    rw [List.cons_append, List.forall_mem_cons, List.forall_mem_append, List.forall_mem_singleton]
    exact ⟨inside, nested.fits, ends⟩

end Nested

/-! ### Fronts of nested logs -/

/-- A log of rules in a text of this length that was broken off while these entries were open,
innermost first. -/
structure Unfinished (size : Nat) (opened : List Entry) (events : List TraceEvent) : Prop where
  opens : openEntries [] events = some opened
  fits : ∀ event ∈ events, event.Fits size
  inside : ∀ entry ∈ opened, entry.offset ≤ size

/-- What closes some entries, innermost first. -/
def closeAll (opened : List Entry) : List TraceEvent :=
  opened.map fun entry => .failed entry.rule entry.offset

theorem openEntries_closeAll (opened : List Entry) :
    openEntries opened (closeAll opened) = some [] := by
  induction opened with
  | nil => rfl
  | cons entry outer ih =>
    have first : (TraceEvent.failed entry.rule entry.offset).openAfter? (entry :: outer) =
        some outer := if_pos rfl
    rw [closeAll, List.map_cons, openEntries_cons, first]
    exact ih

namespace Unfinished

variable {size : Nat} {opened : List Entry} {events others : List TraceEvent}

theorem of_nested (nested : Nested size events) : Unfinished size [] events :=
  ⟨nested.closes, nested.fits, nofun⟩

/-- A rule is tried after other rules have ended, and is not brought to its end. -/
theorem block (nested : Nested size events) (unfinished : Unfinished size opened others)
    {rule : String} {start : Position} (inside : start.offset ≤ size) :
    Unfinished size (opened ++ [⟨rule, start.offset⟩])
      (events ++ .entered rule start.offset :: others) where
  opens := (openEntries_append nested.closes).trans
    (openEntries_around unfinished.opens [⟨rule, start.offset⟩])
  fits := by
    rw [List.forall_mem_append, List.forall_mem_cons]
    exact ⟨nested.fits, inside, unfinished.fits⟩
  inside := by
    rw [List.forall_mem_append, List.forall_mem_singleton]
    exact ⟨unfinished.inside, inside⟩

/-- A log that was broken off is the front of a nested one, in which all that is open fails. -/
theorem front (unfinished : Unfinished size opened events) :
    Nested size (events ++ closeAll opened) where
  closes := (openEntries_append unfinished.opens).trans (openEntries_closeAll opened)
  fits := by
    rw [closeAll, List.forall_mem_append, List.forall_mem_map]
    exact ⟨unfinished.fits, unfinished.inside⟩

end Unfinished

end Peg
