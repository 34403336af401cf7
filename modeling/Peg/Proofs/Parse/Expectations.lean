import Peg.Proofs.Machine.Records
import Peg.Proofs.Parse.Completion
import Peg.Proofs.Parse.Independence
import Peg.Proofs.Text.Quoting

/-!
# Labels of expectations

The label of an expectation tells what was expected: its first character tells which kind of failure
it is, and what follows can be read back, quotes and backslashes included. So the expectations that
a report lists have different labels if they are different failures. This is about failures as
matching records them, of which those of built-in expressions have fixed names.

## Main result

Of the failures of a parse that are listed as expected, two with the same label are the same, and
the report has one label for each of them, in the order of recording.
-/
namespace Peg

open Text (readQuoted quote quoteChar)

/-! ### Reading labels -/

namespace Failure

/-- The bounds of a range, read from what follows the quote in front of the first one. -/
def readRange (text : List Char) : Option (List Char × List Char) :=
  match readQuoted '\'' text with
  | some (low, '.' :: '.' :: '\'' :: rest) =>
    (readQuoted '\'' rest).map fun read => (low, read.1)
  | _ => none

/-- The expectation that has a label. -/
def ofLabel : List Char → Option Failure
  | '"' :: rest => (readQuoted '"' rest).map fun read => .literal (String.ofList read.1) false
  | '^' :: '"' :: rest => (readQuoted '"' rest).map fun read => .literal (String.ofList read.1) true
  | '\'' :: rest => (readRange rest).map fun bounds =>
    .charRange (String.ofList bounds.1) (String.ofList bounds.2)
  | '&' :: expr => some (.predicate true (String.ofList expr))
  | '!' :: expr => some (.predicate false (String.ofList expr))
  | name => some (.builtin (String.ofList name))

theorem ofLabel_literal (text : String) (ignoreCase : Bool) :
    ofLabel (literal text ignoreCase).label.toList = some (.literal text ignoreCase) := by
  have read := Text.readQuoted_flatMap Text.isDelimiter_double text.toList []
  cases ignoreCase with
  | false => simp [label, Text.quote_toList, ofLabel, read]
  | true => simp [label, Text.quote_toList, ofLabel, read]

theorem ofLabel_charRange (low high : String) :
    ofLabel (charRange low high).label.toList = some (.charRange low high) := by
  have first (rest : List Char) := Text.readQuoted_flatMap Text.isDelimiter_single low.toList rest
  have second := Text.readQuoted_flatMap Text.isDelimiter_single high.toList []
  simp [label, Text.quote_toList, ofLabel, readRange, first, second]

theorem ofLabel_predicate (positive : Bool) (expr : String) :
    ofLabel (predicate positive expr).label.toList = some (.predicate positive expr) := by
  cases positive <;> simp [label, ofLabel]

/-- A name that begins as no other label does. -/
theorem ofLabel_builtin {name : String} {first : Char} {rest : List Char}
    (spelled : name.toList = first :: rest) (plain : first ∉ ['"', '^', '\'', '&', '!']) :
    ofLabel (builtin name).label.toList = some (.builtin name) := by
  have same : String.ofList (first :: rest) = name := by rw [← spelled, String.ofList_toList]
  simp only [List.mem_cons, List.not_mem_nil, or_false, not_or] at plain
  rw [label, spelled]
  simp [ofLabel, same, plain]

/-- An expectation is read back from its label. -/
theorem Ordinary.ofLabel_eq {failure : Failure} (ordinary : failure.Ordinary)
    (listed : failure.isExpectation = true) :
    ofLabel failure.label.toList = some failure := by
  cases ordinary with
  | literal text ignoreCase => exact ofLabel_literal text ignoreCase
  | charRange low high => exact ofLabel_charRange low high
  | predicate positive expr => exact ofLabel_predicate positive expr
  | builtin known =>
    -- `ANY`, `SOI` and the like are told from the others by their first letter.
    simp only [List.mem_cons, List.not_mem_nil, or_false] at known
    rcases known with rfl | rfl | rfl | rfl <;> exact ofLabel_builtin rfl (by decide)
  | skipChars count =>
    have spelled : ("SkipChar(" ++ toString count ++ ")").toList =
        'S' :: ("kipChar(".toList ++ (toString count).toList ++ [')']) := by simp
    exact ofLabel_builtin spelled (by decide)
  | emptyStack | sliceOutOfBounds | repeatLimit => cases listed

/-- Expectations with the same label are the same. -/
theorem Ordinary.eq_of_label {failure other : Failure} (ordinary : failure.Ordinary)
    (also : other.Ordinary) (listed : failure.isExpectation = true)
    (listedToo : other.isExpectation = true) (same : failure.label = other.label) :
    failure = other := by
  have read := ordinary.ofLabel_eq listed
  rw [same, also.ofLabel_eq listedToo] at read
  exact (Option.some.inj read).symm

end Failure

/-! ### Lists without repetition -/

section Distinct

variable {α β : Type} [DecidableEq α] [DecidableEq β]

theorem nodup_distinct (list : List α) : (distinct list).Nodup := by
  -- Elements are put to the end of what has been gathered, so the induction is from there.
  induction list using List.reverseRecOn with
  | nil => exact .nil
  | append_singleton list element ih =>
    rw [distinct_concat]
    exact nodup_insertNew ih element

/-- If different elements have different images, the images of the elements are the elements of the
images. -/
theorem distinct_map_of_inj {list : List α} {f : α → β}
    (inj : ∀ element ∈ list, ∀ other ∈ list, f element = f other → element = other) :
    distinct (list.map f) = (distinct list).map f := by
  induction list using List.reverseRecOn with
  | nil => rfl
  | append_singleton list element ih =>
    have among (other : α) (member : other ∈ list) : other ∈ list ++ [element] :=
      List.mem_append_left _ member
    have last : element ∈ list ++ [element] := List.mem_append_right _ (List.mem_singleton_self _)
    rw [List.map_append, List.map_singleton, distinct_concat, distinct_concat,
      ih fun one member other too => inj one (among one member) other (among other too)]
    by_cases present : element ∈ distinct list
    · rw [insertNew_of_mem present, insertNew_of_mem (List.mem_map_of_mem present)]
    · -- An element with the same image as an earlier one would be that element.
      have new : f element ∉ (distinct list).map f := by
        intro member
        obtain ⟨other, too, same⟩ := List.mem_map.mp member
        have equal := inj other (among other (mem_distinct.mp too)) element last same
        exact present (equal ▸ too)
      rw [insertNew, if_neg new, insertNew, if_neg present, List.map_append, List.map_singleton]

end Distinct

/-! ### What parses record -/

/-- No other failures are added than those that matching records. -/
theorem Record.ordinary_kept :
    Record.Kept fun records => ∀ record ∈ records, record.failure.Ordinary where
  alone {record} ordinary other held := by
    rw [List.mem_singleton.mp held]
    exact ordinary
  added {records record} ordinary kept other held := by
    rcases mem_insertNew.mp held with old | rfl
    · exact kept other old
    · exact ordinary

namespace Tracker

/-- All failures that are held are such as matching records. -/
def Ordinary (tracker : Tracker) : Prop := ∀ record ∈ tracker.records, record.failure.Ordinary

/-- No other failures are added. -/
def KeepsOrdinary (before after : Tracker) : Prop := before.Ordinary → after.Ordinary

theorem keepsOrdinary_drift : Drift KeepsOrdinary := Record.ordinary_kept.steady.toDrift

end Tracker

/-! ### Main result -/

namespace Report

variable {report : Report}

/-- The failures that are listed as expected, in the order of recording. -/
def listed (report : Report) : List Failure :=
  report.records.filterMap fun record =>
    if record.kind ≠ some .negative ∧ record.failure.isExpectation then some record.failure
    else none

theorem expected_eq (report : Report) :
    report.expected = distinct (report.listed.map Failure.label) := by
  rw [expected, listed, List.map_filterMap]
  congr 2
  funext record
  split <;> rfl

theorem isExpectation_of_mem_listed {failure : Failure} (member : failure ∈ report.listed) :
    failure.isExpectation = true ∧ ∃ record ∈ report.records, record.failure = failure := by
  obtain ⟨record, among, picked⟩ := List.mem_filterMap.mp member
  simp only [Option.ite_none_right_eq_some, Option.some.injEq] at picked
  obtain ⟨⟨-, listed⟩, rfl⟩ := picked
  exact ⟨listed, record, among, rfl⟩

theorem eq_of_label_of_ordinary (ordinary : ∀ record ∈ report.records, record.failure.Ordinary)
    {failure other : Failure} (member : failure ∈ report.listed) (also : other ∈ report.listed)
    (same : failure.label = other.label) : failure = other := by
  obtain ⟨listed, record, among, rfl⟩ := isExpectation_of_mem_listed member
  obtain ⟨too, second, amongToo, rfl⟩ := isExpectation_of_mem_listed also
  exact (ordinary record among).eq_of_label (ordinary second amongToo) listed too same

end Report

/-- In the report of a parse that fails, two failures that are listed as expected have the same
label only if they are the same failure. So the report has exactly one label for each of these
failures, in the order in which they were recorded first, and no label twice. -/
theorem expectations_have_labels_of_their_own (env : Env) (fuel : Nat) (expr : Expr)
    {before after : State} {report : Report} (fresh : before.tracker = {})
    (failed : parse env fuel expr before = .done (.error report) after ∨
      parsePartial env fuel expr before = .done (.error report) after) :
    (∀ failure ∈ report.listed, ∀ other ∈ report.listed,
        failure.label = other.label → failure = other) ∧
      report.expected = (distinct report.listed).map Failure.label ∧ report.expected.Nodup := by
  have begun : before.tracker.Ordinary := by
    rw [fresh]
    exact nofun
  -- The report lists what the tracker holds at the end, and nothing else was ever recorded.
  have ordinary : ∀ record ∈ report.records, record.failure.Ordinary := by
    rcases failed with ended | ended
    · rw [report_eq_of_parse ended]
      exact Action.Drifts.parse Tracker.keepsOrdinary_drift env fuel expr before after
        (congrArg Outcome.state? ended) begun
    · rw [report_eq_of_parsePartial ended]
      exact Action.Drifts.parsePartial Tracker.keepsOrdinary_drift env fuel expr before after
        (congrArg Outcome.state? ended) begun
  have apart : ∀ failure ∈ report.listed, ∀ other ∈ report.listed,
      failure.label = other.label → failure = other := fun failure member other also same =>
    Report.eq_of_label_of_ordinary ordinary member also same
  refine ⟨apart, ?_, ?_⟩
  · rw [report.expected_eq, distinct_map_of_inj apart]
  · rw [report.expected_eq]
    exact nodup_distinct _

/-- A quote is missing, once more in a rule and ahead, and so is a range. What is missing several
times has one label. -/
theorem quotes_have_labels_of_their_own :
    let quote : Expr := .literal "\""
    let choice : Expr :=
      .choice quote [.rule 0 "quote" .normal (.positive quote), .terminal (.charRange '\'' '0')]
    let missing : List Failure :=
      [.literal "\"" false, .predicate true "\"\\\"\"", .charRange "'" "0"]
    ∃ report after, parse { input := ⟨0, #['a']⟩ } 30 choice {} = .done (.error report) after ∧
      report.listed = .literal "\"" false :: missing ∧
      report.expected = missing.map Failure.label := by
  intro quote choice missing
  obtain ⟨report, after, failed, listed⟩ : ∃ report after,
      parse { input := ⟨0, #['a']⟩ } 30 choice {} = .done (.error report) after ∧
        report.listed = .literal "\"" false :: missing := ⟨_, _, rfl, by decide +kernel⟩
  have labels := (expectations_have_labels_of_their_own { input := ⟨0, #['a']⟩ } 30 choice rfl
    (.inl failed)).2.1
  rw [listed] at labels
  exact ⟨report, after, failed, listed, labels⟩

end Peg
