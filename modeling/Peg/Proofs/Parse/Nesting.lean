import Peg.Proofs.Parse.Expectations
import Peg.Proofs.Tracker.Nesting

/-!
# Entries of parses

Matching records failures as they are, never nested ones, and none twice in the same rules and
lookaheads. So at any time what a tracker shows are entries that stand for its records, and a report
shows those of the tracker that it is made of.

## Main result

Nesting failures in rules can be undone, and the entries of a tracker and of a report are different
ones, from which the records are read back.
-/
namespace Peg

theorem Failure.Ordinary.isNested_eq {failure : Failure} (ordinary : failure.Ordinary) :
    failure.isNested = false := by
  cases ordinary <;> rfl

/-- Records stay flat, as no failure that matching records is nested. -/
theorem Record.flat_kept : Record.Kept Record.Flat where
  alone {record} ordinary := by
    refine ⟨List.nodup_singleton record, fun other held => ?_⟩
    rw [List.mem_singleton.mp held]
    exact ordinary.isNested_eq
  added {records record} ordinary flat := by
    refine ⟨nodup_insertNew flat.nodup record, fun other held => ?_⟩
    rcases mem_insertNew.mp held with old | rfl
    · exact flat.plain other old
    · exact ordinary.isNested_eq

section Ends

variable {env : Env} {expr : Expr} {before after : State}

theorem Leaves.flat {start : Position} {atomic : Bool}
    (leaves : Leaves env expr start atomic before after)
    (flat : Record.Flat before.tracker.records) : Record.Flat after.tracker.records := by
  obtain ⟨moves, ended⟩ := leaves
  exact Action.Drifts.run Record.flat_kept.steady.toDrift env moves expr start atomic before after
    ended flat

/-- A parse on a new tracker, of the whole text or of a prefix, leaves flat records. -/
theorem flat_of_parse {fuel : Nat} (fresh : before.tracker = {})
    (ended : (parse env fuel expr before).state? = some after ∨
      (parsePartial env fuel expr before).state? = some after) :
    Record.Flat after.tracker.records := by
  have drift := Record.flat_kept.steady.toDrift
  have begun : Record.Flat before.tracker.records := by
    rw [fresh]
    exact ⟨.nil, nofun⟩
  rcases ended with ended | ended
  · exact Action.Drifts.parse drift env fuel expr before after ended begun
  · exact Action.Drifts.parsePartial drift env fuel expr before after ended begun

/-- The entries of the report of a parse are those that its tracker shows at the end. -/
theorem entries_of_report {fuel : Nat} {report : Report}
    (failed : parse env fuel expr before = .done (.error report) after ∨
      parsePartial env fuel expr before = .done (.error report) after) :
    report.entries = after.tracker.entries ∧ report.records = after.tracker.records := by
  have same : report = after.tracker.report env.input := by
    rcases failed with ended | ended
    · exact report_eq_of_parse ended
    · exact report_eq_of_parsePartial ended
  subst same
  exact ⟨rfl, rfl⟩

end Ends

/-! ### Main result -/

/-- A failure that is not nested can be nested in any chain of rules. The chain and the failure are
read off again, and the label and the description stay the same, so that different failures or
different chains give different nested failures. Where the records of a tracker are flat, they are
flat in every state that matching comes to and in the one that it leaves, and the entries stand for
them: no two are the same, and from each of them, in order, its record is read back. So it is after
a parse on a new tracker, and with the report of one that fails, whose rules are the different last
rules of the chains of its entries. -/
theorem nesting_loses_nothing :
    (∀ (failure : Failure) (chain : List String), failure.isNested = false →
        (failure.nestInRules chain).ruleChain = chain ∧
          (failure.nestInRules chain).innermost = failure ∧
          (failure.nestInRules chain).label = failure.label ∧
          (failure.nestInRules chain).describe = failure.describe) ∧
      (∀ (failure other : Failure) (chain others : List String), failure.isNested = false →
        other.isNested = false → failure.nestInRules chain = other.nestInRules others →
          failure = other ∧ chain = others) ∧
      (∀ (env : Env) (expr : Expr) (start : Position) (atomic : Bool) (before : State),
        Record.Flat before.tracker.records →
          (∀ reached, Machine.Reaches env (.initial expr start atomic before) reached →
            Record.Flat reached.state.tracker.records ∧
              StandFor reached.state.tracker.entries reached.state.tracker.records) ∧
          ∀ after, Leaves env expr start atomic before after →
            Record.Flat after.tracker.records ∧
              StandFor after.tracker.entries after.tracker.records) ∧
      ∀ (env : Env) (fuel : Nat) (expr : Expr) (before after : State), before.tracker = {} →
        ((parse env fuel expr before).state? = some after ∨
            (parsePartial env fuel expr before).state? = some after →
          StandFor after.tracker.entries after.tracker.records) ∧
        ∀ report, parse env fuel expr before = .done (.error report) after ∨
            parsePartial env fuel expr before = .done (.error report) after →
          StandFor report.entries report.records ∧ report.rules.Nodup ∧
            report.rules =
              distinct (report.entries.filterMap fun entry => entry.1.ruleChain.getLast?) ∧
            ∀ rule, rule ∈ report.rules ↔
              ∃ entry ∈ report.entries, entry.1.ruleChain.getLast? = some rule := by
  refine ⟨fun failure chain plain => ?_, fun _ _ _ _ plain also => ?_, ?_, ?_⟩
  · exact ⟨failure.ruleChain_nestInRules plain chain, failure.innermost_nestInRules plain chain,
      failure.label_nestInRules chain, failure.describe_nestInRules chain⟩
  · exact Failure.nestInRules_inj plain also
  · intro env expr start atomic before flat
    constructor
    · intro reached reaches
      have kept := Record.flat_kept.steady.reaches reaches flat
      exact ⟨kept, kept.standFor⟩
    · intro after leaves
      exact ⟨leaves.flat flat, (leaves.flat flat).standFor⟩
  · intro env fuel expr before after fresh
    constructor
    · intro ended
      exact (flat_of_parse fresh ended).standFor
    · intro report failed
      -- The report shows what the tracker holds at the end.
      have ended := failed.imp (congrArg Outcome.state?) (congrArg Outcome.state?)
      have standFor : StandFor report.entries report.records := by
        obtain ⟨entries, records⟩ := entries_of_report failed
        rw [entries, records]
        exact (flat_of_parse fresh ended).standFor
      have rules := standFor.rules_eq
      refine ⟨standFor, nodup_distinct _, rules, fun rule => ?_⟩
      rw [rules, mem_distinct, List.mem_filterMap]

/-- A letter is missing in two rules, in these ahead of something else, and in the outer rule alone.
It is the same failure each time, and no two entries are the same. -/
theorem missing_letter_nested_apart :
    let missing : Failure := .literal "b" false
    let inner : Expr := .rule 1 "inner" .normal (.literal "b")
    let outer : Expr := .rule 0 "outer" .normal (.choice inner [.positive inner, .literal "b"])
    let env : Env := { input := ⟨0, #['a']⟩ }
    let both : Failure := .nested "outer" (.nested "inner" missing)
    (both.label = "\"b\"" ∧ both.describe = "expected \"b\"") ∧
      (missing = both.innermost ∧ ["outer", "inner"] = both.ruleChain) ∧
      (∃ after, Leaves env outer (.start env.input) false {} after ∧
        after.tracker.records.length = 4 ∧ after.tracker.entries.Nodup) ∧
      ∃ report after, parse env 40 outer {} = .done (.error report) after ∧
        report.entries = [(both, none), (both, some .positive),
          (.nested "outer" (.predicate true "inner"), some .positive),
          (.nested "outer" missing, none)] ∧
        report.entries.Nodup ∧ report.rules = ["inner", "outer"] := by
  intro missing inner outer env both
  obtain ⟨readOff, injective, kept, reported⟩ := nesting_loses_nothing
  have same := injective missing both.innermost ["outer", "inner"] both.ruleChain rfl rfl rfl
  refine ⟨?_, same, ?_, ?_⟩
  · obtain ⟨-, -, label, described⟩ := readOff missing ["outer", "inner"] rfl
    exact ⟨label.trans rfl, described.trans rfl⟩
  · obtain ⟨after, leaves, count⟩ : ∃ after,
        Leaves env outer (.start env.input) false {} after ∧ after.tracker.records.length = 4 :=
      ⟨_, ⟨40, rfl⟩, by decide +kernel⟩
    have standFor := ((kept env outer (.start env.input) false {} ⟨.nil, nofun⟩).2 after leaves).2
    exact ⟨after, leaves, count, standFor.nodup⟩
  · obtain ⟨report, after, failed, shown⟩ : ∃ report after,
        parse env 40 outer {} = .done (.error report) after ∧
          report.entries = [(both, none), (both, some .positive),
            (.nested "outer" (.predicate true "inner"), some .positive),
            (.nested "outer" missing, none)] := ⟨_, _, rfl, by decide +kernel⟩
    obtain ⟨standFor, -, rules, -⟩ := (reported env 40 outer {} after rfl).2 report (.inl failed)
    refine ⟨report, after, failed, shown, standFor.nodup, ?_⟩
    rw [rules, shown]
    decide

end Peg
