import Peg.Index
import Peg.Input
import Peg.Tracker

/-!
The report of a failed parse: the place of the furthest failures, what was expected and what was
unexpected there, the problems that are not about the input, and an excerpt of the text with a
caret under the place. Failures far beyond the end of the text have no report, as there is no room
for the spaces in front of their caret.
-/

namespace Peg

/-- The report of a failed parse. -/
structure Report where
  /-- The input that does not match. -/
  input : Input
  /-- The offset of the failures. -/
  offset : Int
  /-- The failures recorded there, in the order of recording. -/
  records : List Record

/-- The report of the failures that a tracker holds. -/
def Tracker.report (tracker : Tracker) (input : Input) : Report :=
  ⟨input, max tracker.furthest 0, tracker.records⟩

/-- The texts of a list with commas between them, and "or" in front of the last. -/
def orList : List String → String
  | [] => ""
  | [label] => label
  | labels => ", ".intercalate labels.dropLast ++ " or " ++ labels.getLastD ""

namespace Report

/-- The line of the failures, counted from one. -/
def line (report : Report) : Int := (Text.lineColumn report.input.chars report.offset).1

/-- The column of the failures, counted from one. -/
def column (report : Report) : Int := (Text.lineColumn report.input.chars report.offset).2

/-- The failures, each nested in its rules, with the lookaheads that they belong to. -/
def entries (report : Report) : List (Failure × Option Lookahead) :=
  report.records.map fun record => (record.entry, record.kind)

/-- The failures, each nested in its rules. -/
def failures (report : Report) : List Failure := report.records.map Record.entry

/-- The labels of what the input should have been. -/
def expected (report : Report) : List String :=
  distinct <| report.records.filterMap fun record =>
    if record.kind ≠ some .negative ∧ record.failure.isExpectation then some record.failure.label
    else none

/-- What matched ahead although it must not. -/
def unexpected (report : Report) : List String :=
  distinct <| report.records.filterMap fun record =>
    match record.kind, record.failure with
    | some .negative, .predicate _ expr => some expr
    | _, _ => none

/-- What went wrong beside the input. -/
def problems (report : Report) : List String :=
  distinct <| report.records.filterMap fun record =>
    if record.failure.isExpectation then none else some record.failure.describe

/-- The kind of lookahead that all failures belong to, if there is one. -/
def predicate (report : Report) : Option Lookahead :=
  match distinct (report.records.map Record.kind) with
  | [kind] => kind
  | _ => none

/-- The innermost rules of the failures. -/
def rules (report : Report) : List String :=
  distinct <| report.records.filterMap fun record => record.rules.getLast?

/-- The line of the failures with a caret under their column. -/
def excerpt (report : Report) : String := Text.excerpt report.input.chars report.offset

/-- The sentence of the report: what was expected, what was unexpected and the problems. -/
def summary (report : Report) : String :=
  let expected := if report.expected.isEmpty then [] else ["expected " ++ orList report.expected]
  let unexpected :=
    if report.unexpected.isEmpty then [] else ["unexpected " ++ orList report.unexpected]
  let parts := expected ++ unexpected ++ report.problems
  "; ".intercalate (if parts.isEmpty then ["no match"] else parts)

/-- The text of the report. -/
def message (report : Report) : String :=
  let context :=
    if report.rules.isEmpty then "" else " (in " ++ ", ".intercalate report.rules ++ ")"
  s!"Parse error at line {report.line}, column {report.column} (index {report.offset})"
    ++ context ++ ": " ++ report.summary ++ "\n" ++ report.excerpt

end Report

/-- Why there is no report. -/
inductive ReportError where
  /-- The caret would have to stand at a column that is no index. -/
  | caretNotIndex
  /-- There is no room for the line of the caret. -/
  | noRoom
deriving DecidableEq

/-- The wording of an error. -/
def ReportError.message : ReportError → String
  | caretNotIndex => notIndexMessage
  | noRoom => ""

/-- The report of the failures that a tracker holds, if its caret can be drawn. That of failures
inside the text always can. -/
def Tracker.finish (tracker : Tracker) (input : Input) : Except ReportError Report :=
  let report := tracker.report input
  if !isIndex (report.column - 1) then .error .caretNotIndex
  else if roomLimit ≤ report.column then .error .noRoom
  else .ok report

end Peg
