import Peg.Distinct
import Peg.Failure

/-!
The tracker of the failures that got furthest into the input. A failure in front of the furthest
offset is discarded, one at that offset is added to the others, and one beyond it replaces all of
them. Each record keeps the rules and the lookahead inside which the failure happened; while the
tracker is muted it records nothing.
-/

namespace Peg

/-- The two kinds of lookahead. -/
inductive Lookahead where
  /-- What comes next has to match. -/
  | positive
  /-- What comes next must not match. -/
  | negative
deriving DecidableEq

/-- The name of a kind of lookahead. -/
def Lookahead.name : Lookahead → String
  | positive => "positive"
  | negative => "negative"

/-- The kind of lookahead that a failed predicate belongs to. -/
def Lookahead.ofPredicate (positive : Bool) : Lookahead :=
  if positive then .positive else .negative

/-- A recorded failure. -/
structure Record where
  /-- What failed. -/
  failure : Failure
  /-- The names of the rules around it, outermost first. -/
  rules : List String
  /-- The lookahead that it belongs to, if any. -/
  kind : Option Lookahead
deriving DecidableEq

/-- The failure of a record, nested in its rules. -/
def Record.entry (record : Record) : Failure := record.failure.nestInRules record.rules

/-- Something that is going on while failures are recorded. -/
inductive Scope where
  /-- A rule is being matched. -/
  | rule (name : String)
  /-- A lookahead is being tried. Inside a negative one failures are what makes it succeed, so
  nothing is recorded there. -/
  | lookahead (kind : Lookahead)
  /-- Nothing is to be recorded. -/
  | muted

/-- The furthest failures, and the scopes that are open. -/
structure Tracker where
  /-- The offset of the recorded failures, or `-1` if there are none. -/
  furthest : Int := -1
  /-- The failures at that offset, in the order of recording. -/
  records : List Record := []
  /-- The names of the open rules, innermost first. -/
  rules : List String := []
  /-- The open lookaheads, innermost first. -/
  kinds : List Lookahead := []
  /-- The number of open scopes that mute the tracker. -/
  muteDepth : Nat := 0

namespace Tracker

/-- The innermost open lookahead. -/
def kind (tracker : Tracker) : Option Lookahead := tracker.kinds.head?

/-- The recorded failures, each nested in its rules, with the lookaheads that they belong to. -/
def entries (tracker : Tracker) : List (Failure × Option Lookahead) :=
  tracker.records.map fun record => (record.entry, record.kind)

/-- The record of a failure inside the open scopes. Unless a kind is given it is that of the
innermost open lookahead. -/
def recordOf (tracker : Tracker) (failure : Failure) (kind : Option Lookahead) : Record :=
  ⟨failure, tracker.rules.reverse, kind <|> tracker.kind⟩

/-- Records a failure at an offset, with the kind of the innermost open lookahead unless another
one is given. -/
def recordFailure (tracker : Tracker) (failure : Failure) (offset : Int)
    (kind : Option Lookahead := none) : Tracker :=
  if tracker.muteDepth > 0 then tracker
  else if offset < tracker.furthest then tracker
  else if tracker.furthest < offset then
    { tracker with furthest := offset, records := [tracker.recordOf failure kind] }
  else { tracker with records := insertNew tracker.records (tracker.recordOf failure kind) }

/-- Records that the stack is empty. -/
def recordEmptyStack (tracker : Tracker) (offset : Int) : Tracker :=
  tracker.recordFailure .emptyStack offset

/-- Records that the stack has no such slice. -/
def recordOutOfBounds (tracker : Tracker) (start : Int) (stop : Option Int) (offset : Int) :
    Tracker :=
  tracker.recordFailure (.sliceOutOfBounds start stop) offset

/-- Records that a repetition met the limit. -/
def recordRepeatLimit (tracker : Tracker) (limit : Int) (offset : Int) : Tracker :=
  tracker.recordFailure (.repeatLimit limit) offset

/-- Records that a lookahead failed. -/
def recordPredicate (tracker : Tracker) (positive : Bool) (label : String) (offset : Int) :
    Tracker :=
  tracker.recordFailure (.predicate positive label) offset (Lookahead.ofPredicate positive)

/-- Opens a scope. -/
def enter (tracker : Tracker) : Scope → Tracker
  | .rule name => { tracker with rules := name :: tracker.rules }
  | .lookahead .positive => { tracker with kinds := .positive :: tracker.kinds }
  | .lookahead .negative =>
    { tracker with kinds := .negative :: tracker.kinds, muteDepth := tracker.muteDepth + 1 }
  | .muted => { tracker with muteDepth := tracker.muteDepth + 1 }

/-- Closes the innermost scope of its kind. -/
def leave (tracker : Tracker) : Scope → Tracker
  | .rule _ => { tracker with rules := tracker.rules.tail }
  | .lookahead .positive => { tracker with kinds := tracker.kinds.tail }
  | .lookahead .negative =>
    { tracker with kinds := tracker.kinds.tail, muteDepth := tracker.muteDepth - 1 }
  | .muted => { tracker with muteDepth := tracker.muteDepth - 1 }

/-- Combines the furthest failures of another tracker with the ones held. -/
def merge (tracker other : Tracker) : Tracker :=
  if tracker.furthest < other.furthest then
    { tracker with furthest := other.furthest, records := other.records }
  else if other.furthest = tracker.furthest then
    { tracker with records := other.records.foldl insertNew tracker.records }
  else tracker

/-- The form of the kind of a record. -/
def kindForm : Option Lookahead → String
  | none => "None"
  | some kind => Text.literalForm kind.name

/-- The form in which a message shows a record. -/
def recordForm (record : Record) : String :=
  Text.rowForm [record.failure.form, Text.rowForm (record.rules.map Text.literalForm),
    kindForm record.kind]

/-- The form in which a message shows a tracker. -/
def form (tracker : Tracker) : String :=
  let records := Text.listForm (tracker.records.map recordForm)
  s!"Tracker(furthest={tracker.furthest}, records={records})"

theorem leave_enter (tracker : Tracker) (scope : Scope) :
    (tracker.enter scope).leave scope = tracker := by
  cases scope with
  | rule name => rfl
  | lookahead kind => cases kind <;> rfl
  | muted => rfl

end Tracker

end Peg
