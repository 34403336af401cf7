import Peg.Proofs.Tracker.Summary
import Peg.Report

/-!
# Failures nested in rules

A record keeps a failure flat, beside the list of the rules around it. Only an entry nests it in
these rules. A failure that is not nested already is taken out of its rules again, and the rules are
read off in their order; so an entry tells what its record is, and different records have different
entries.

## Main results

`Failure.nestInRules_inj`, and `Record.Flat.standFor` for all that a tracker or a report holds.
-/
namespace Peg

namespace Failure

/-- Whether a failure is nested in a rule. -/
def isNested : Failure → Bool
  | nested .. => true
  | _ => false

section Nesting

variable {failure other : Failure} {chain others : List String}

/-- The chain that is read off is the one that the failure was nested in. -/
theorem ruleChain_nestInRules (plain : failure.isNested = false) (chain : List String) :
    (failure.nestInRules chain).ruleChain = chain := by
  induction chain with
  | nil =>
    cases failure with
    | nested => cases plain
    | _ => rfl
  | cons rule chain ih => exact congrArg (rule :: ·) ih

/-- What is innermost is the failure that was nested. -/
theorem innermost_nestInRules (plain : failure.isNested = false) (chain : List String) :
    (failure.nestInRules chain).innermost = failure := by
  induction chain with
  | nil =>
    cases failure with
    | nested => cases plain
    | _ => rfl
  | cons rule chain ih => exact ih

theorem label_nestInRules (failure : Failure) (chain : List String) :
    (failure.nestInRules chain).label = failure.label := by
  induction chain with
  | nil => rfl
  | cons rule chain ih => exact ih

theorem describe_nestInRules (failure : Failure) (chain : List String) :
    (failure.nestInRules chain).describe = failure.describe := by
  induction chain with
  | nil => rfl
  | cons rule chain ih => exact ih

/-- Nested failures are the same only if the failures and the rules around them are. -/
theorem nestInRules_inj (plain : failure.isNested = false) (also : other.isNested = false)
    (same : failure.nestInRules chain = other.nestInRules others) :
    failure = other ∧ chain = others := by
  constructor
  · rw [← innermost_nestInRules plain chain, same, innermost_nestInRules also]
  · rw [← ruleChain_nestInRules plain chain, same, ruleChain_nestInRules also]

end Nesting

end Failure

/-! ### Entries -/

/-- The record that an entry is made from. -/
def Record.ofEntry (entry : Failure × Option Lookahead) : Record :=
  ⟨entry.1.innermost, entry.1.ruleChain, entry.2⟩

theorem Record.ofEntry_entry {record : Record} (plain : record.failure.isNested = false) :
    Record.ofEntry (record.entry, record.kind) = record := by
  simp only [Record.ofEntry, Record.entry, Failure.innermost_nestInRules plain,
    Failure.ruleChain_nestInRules plain]

/-- The entries stand for the records: from each one of them a record is read back, in this order,
and no two are the same. -/
structure StandFor (entries : List (Failure × Option Lookahead)) (records : List Record) :
    Prop where
  readBack : entries.map Record.ofEntry = records
  nodup : entries.Nodup

/-- The records are different ones, of failures that are not nested already. -/
structure Record.Flat (records : List Record) : Prop where
  nodup : records.Nodup
  plain : ∀ record ∈ records, record.failure.isNested = false

theorem Record.Flat.standFor {records : List Record} (flat : Record.Flat records) :
    StandFor (records.map fun record => (record.entry, record.kind)) records := by
  have readBack : (records.map fun record => (record.entry, record.kind)).map Record.ofEntry =
      records := by
    rw [List.map_map]
    refine Eq.trans (List.map_congr_left fun record held => ?_) (List.map_id records)
    exact Record.ofEntry_entry (flat.plain record held)
  -- Two entries that are the same would be read back as the same record.
  exact ⟨readBack, .of_map Record.ofEntry (readBack.symm ▸ flat.nodup)⟩

/-- The rules of a report are the last ones of the chains of its entries. -/
theorem StandFor.rules_eq {report : Report} (standFor : StandFor report.entries report.records) :
    report.rules =
      distinct (report.entries.filterMap fun entry => entry.1.ruleChain.getLast?) := by
  rw [Report.rules, ← standFor.readBack, List.filterMap_map]
  rfl

end Peg
