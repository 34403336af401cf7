import Peg.Proofs.Eval.Reporting
import Peg.Proofs.Tree.Entries

/-!
# Reports say something

A parse that fails reports the failures that its tracker holds. As no expression fails in silence,
there are some; and as they are sound, they are inside the text and every one of them is counted as
expected, as unexpected or as a problem. So the sentence of a report is never the one that stands in
for a report that says nothing.

## Main result

What a failed match leaves in the tracker, and what a failed parse reports.
-/
namespace Peg

/-! ### What a tracker holds afterwards -/

namespace Tracker

variable {input : Input} {before after : Tracker} {earlier gained : List Recording}

theorem Summarizes.records_ne_nil (summary : after.Summarizes earlier)
    (some : 0 ≤ after.furthest) : after.records ≠ [] := by
  have reached := summary.furthest_eq
  have begun : -1 < Recording.furthestOffset earlier := by omega
  obtain ⟨recording, member, furthest⟩ := Recording.exists_furthest begun
  rw [summary.records_eq]
  apply List.ne_nil_of_mem
  exact Recording.mem_recordsAt.mpr ⟨recording, member, furthest.trans reached.symm, rfl⟩

/-- What was told at a position is there to be seen afterwards. -/
theorem Gains.of_tells {start : Position} (gains : Gains input before gained after)
    (summary : before.Summarizes earlier) (tells : Tells start gained) :
    after.records ≠ [] ∧ (start.offset : Int) ≤ after.furthest := by
  obtain ⟨recording, member, beyond⟩ := tells
  have held := gains.summarizes summary
  have reached := held.furthest_eq
  have further := Recording.offset_le_furthestOffset (List.mem_append_right earlier member)
  exact ⟨held.records_ne_nil (by omega), by omega⟩

end Tracker

theorem History.listens {scopes : List Scope} (history : History scopes)
    (unmuted : history.tracker.muteDepth = 0) : history.tracker.Listens := by
  refine ⟨unmuted, fun among => ?_⟩
  have loud : ¬scopes.any Scope.mutes = true := by
    rw [← history.holds.muted_iff]
    omega
  rw [history.holds.kinds, List.mem_filterMap] at among
  obtain ⟨scope, member, negative⟩ := among
  apply loud
  refine List.any_eq_true.mpr ⟨scope, member, ?_⟩
  cases scope with
  | lookahead kind =>
    cases negative
    rfl
  | rule | muted => cases negative

/-! ### The machine and the parse -/

section Entries

variable (env : Env) (fuel : Nat) (expr : Expr)

theorem run_accounts {input : Input} {start : Position} (atomic : Bool)
    (inside : start.input = input) :
    Action.Accounts input (run env fuel expr start atomic) (Heard env expr start) := by
  have told : Action.Accounts input (run env fuel expr start atomic)
      (Told (Throughout env Expr.Speaks expr) start) := by
    intro before listens
    by_cases endless : run env fuel expr start atomic before = .exhausted
    · rw [endless]
      trivial
    · -- Where the machine ends, the evaluation ends in the same way.
      obtain ⟨enough, same⟩ := Machine.eval_of_run endless
      rw [← same]
      exact eval_accounts env input enough expr start atomic inside before listens
  refine told.answered.mono ?_
  rintro result gained ⟨told, before, after, ended⟩
  refine ⟨?_, told⟩
  rintro found rfl
  have finishes : Finishes env expr start atomic before (some found) after := ⟨fuel, ended⟩
  exact finishes.tiled.precedes

/-- What is reported are the failures that are held; but for the trace, the state stays as it is. -/
theorem reportFailure_eq (state : State) : ∃ trace, reportFailure env state =
    .done (.error (state.tracker.report env.input)) { state with trace } := by
  unfold reportFailure Action.emit
  cases env.tracing with
  | true => exact ⟨_, rfl⟩
  | false => exact ⟨_, rfl⟩

variable {env fuel expr} {before after : State} {parsed : Parsed} {report : Report}

theorem reportFailure_eq_done (ended : reportFailure env before = .done parsed after) :
    parsed = .error (after.tracker.report env.input) ∧ after.tracker = before.tracker := by
  obtain ⟨trace, reported⟩ := reportFailure_eq env before
  cases reported.symm.trans ended
  exact ⟨rfl, rfl⟩

/-- A report is of the failures that are held at the end. -/
theorem report_eq_of_parsePartial
    (ended : parsePartial env fuel expr before = .done (.error report) after) :
    report = after.tracker.report env.input := by
  obtain ⟨result, middle, ran, went⟩ := Action.bind_eq_done ended
  cases result with
  | none =>
    have reported := (reportFailure_eq_done went).1
    exact Except.error.inj reported
  | some found => cases went

theorem report_eq_of_parse (ended : parse env fuel expr before = .done (.error report) after) :
    report = after.tracker.report env.input := by
  obtain ⟨parsed, middle, began, went⟩ := Action.bind_eq_done ended
  cases parsed with
  | error early =>
    cases went
    exact report_eq_of_parsePartial began
  | ok found =>
    obtain ⟨stop, rest, _, went⟩ := Action.bind_eq_done went
    obtain ⟨result, last, _, went⟩ := Action.bind_eq_done went
    cases result with
    | none => exact Except.error.inj (reportFailure_eq_done went).1
    | some final => cases went

/-- A parse that fails has told so. -/
def ToldOf (env : Env) (expr : Expr) (parsed : Parsed) (gained : List Recording) : Prop :=
  Throughout env Expr.Speaks expr → ∀ report, parsed = .error report →
    Tells (.start env.input) gained

variable (env fuel expr)

theorem reportFailure_accounts :
    Action.Accounts env.input (reportFailure env) fun _ _ => True := by
  refine .after_same (.gets Tracker.same_course _) fun report _ => ?_
  exact .after_same (.emit Tracker.same_course env _) fun _ _ => .pure trivial

theorem parsePartial_accounts :
    Action.Accounts env.input (parsePartial env fuel expr) (ToldOf env expr) := by
  refine (run_accounts env fuel expr false rfl).bind fun result gained heard => ?_
  cases result with
  | none =>
    refine (reportFailure_accounts env).mono fun parsed more _ speak report _ => ?_
    simpa using (heard.told speak rfl).among (.refl _) [] more
  | some found => exact .pure fun _ _ => nofun

theorem matchRest_accounts {here : Position} (inside : here.input = env.input) :
    Action.Accounts env.input (matchRest env fuel expr here) fun stop _ =>
      here.Precedes stop := by
  unfold matchRest
  split
  · exact .pure (.refl here)
  · refine (run_accounts env fuel .ignored false inside).bind fun result gained heard => .pure ?_
    cases result with
    | none => exact .refl here
    | some found => exact heard.precedes found rfl

theorem parse_accounts : Action.Accounts env.input (parse env fuel expr) (ToldOf env expr) := by
  refine (parsePartial_accounts env fuel expr).answered.bind fun parsed gained began => ?_
  obtain ⟨told, before, middle, ended⟩ := began
  cases parsed with
  | error report => exact .pure (by simpa using told)
  | ok found =>
    have ordered := (tiled_of_parsePartial ended).precedes
    refine (matchRest_accounts env fuel expr ordered.input_eq).bind fun stop skipped gap => ?_
    have onward := ordered.trans gap
    refine (run_accounts env fuel (.terminal .endOfInput) false onward.input_eq).bind
      fun result more heard => ?_
    cases result with
    | none =>
      -- That the text does not end here is told at this place.
      have speaks : Throughout env Expr.Speaks (.terminal .endOfInput) := .terminal ⟨nofun, trivial⟩
      refine (reportFailure_accounts env).mono fun parsed last _ _ report _ => ?_
      simpa using (heard.told speaks rfl).among onward (gained ++ skipped) last
    | some final => exact .pure fun _ _ => nofun

end Entries

/-! ### What a report says -/

namespace Report

variable {report : Report}

/-- Each record of a sound report is counted as expected, as unexpected or as a problem. -/
theorem says_of_record {record : Record} (member : record ∈ report.records)
    (negative : record.kind = some .negative → ∃ label, record.failure = .predicate false label) :
    report.expected ≠ [] ∨ report.unexpected ≠ [] ∨ report.problems ≠ [] := by
  by_cases expectation : record.failure.isExpectation = true
  · by_cases forbidden : record.kind = some .negative
    · right; left
      obtain ⟨label, failed⟩ := negative forbidden
      apply List.ne_nil_of_mem (a := label)
      exact mem_distinct.mpr (List.mem_filterMap.mpr ⟨record, member, by rw [forbidden, failed]⟩)
    · left
      apply List.ne_nil_of_mem (a := record.failure.label)
      refine mem_distinct.mpr (List.mem_filterMap.mpr ⟨record, member, ?_⟩)
      rw [if_pos ⟨forbidden, expectation⟩]
  · right; right
    apply List.ne_nil_of_mem (a := record.failure.describe)
    refine mem_distinct.mpr (List.mem_filterMap.mpr ⟨record, member, ?_⟩)
    rw [if_neg expectation]

/-! The sentence of a report starts with the first of its parts. -/

/-- The text is not empty, and it does not start like the sentence that says nothing. -/
def Opens (text : String) : Prop := ∃ c rest, text.toList = c :: rest ∧ c ≠ 'n'

theorem opens_append {text : String} (opens : Opens text) (more : String) :
    Opens (text ++ more) := by
  obtain ⟨c, rest, begins, other⟩ := opens
  exact ⟨c, rest ++ more.toList, by simp [begins], other⟩

theorem opens_intercalate {separator part : String} (opens : Opens part) (parts : List String) :
    Opens (separator.intercalate (part :: parts)) := by
  cases parts with
  | nil => simpa using opens
  | cons next parts =>
    rw [String.intercalate_cons_cons, String.append_assoc]
    exact opens_append opens _

theorem opens_describe {failure : Failure} (problem : failure.isExpectation = false) :
    Opens failure.describe := by
  cases failure with
  | emptyStack => exact ⟨_, _, rfl, by decide⟩
  | sliceOutOfBounds start stop =>
    have begins : Opens "stack slice " := ⟨_, _, rfl, by decide⟩
    exact opens_append (opens_append begins _) _
  | repeatLimit limit =>
    have begins : Opens "too many repetitions (the limit is " := ⟨_, _, rfl, by decide⟩
    exact opens_append (opens_append begins _) _
  | literal | charRange | builtin | predicate | nested => cases problem

/-- The sentence opens with the first part that there is. -/
theorem opens_summary
    (some : report.expected ≠ [] ∨ report.unexpected ≠ [] ∨ report.problems ≠ []) :
    Opens report.summary := by
  have expected : Opens "expected " := ⟨_, _, rfl, by decide⟩
  have unexpected : Opens "unexpected " := ⟨_, _, rfl, by decide⟩
  unfold summary
  cases wanted : report.expected with
  | cons label labels => exact opens_intercalate (opens_append expected _) _
  | nil =>
    cases forbidden : report.unexpected with
    | cons label labels => exact opens_intercalate (opens_append unexpected _) _
    | nil =>
      cases wrong : report.problems with
      | nil => simp [wanted, forbidden, wrong] at some
      | cons problem problems =>
        have member : problem ∈ report.problems := wrong ▸ List.mem_cons_self
        obtain ⟨record, _, described⟩ := List.mem_filterMap.mp (mem_distinct.mp member)
        split at described
        · cases described
        next failed =>
          cases described
          exact opens_intercalate (opens_describe (Bool.eq_false_iff.mpr failed)) problems

theorem summary_ne
    (some : report.expected ≠ [] ∨ report.unexpected ≠ [] ∨ report.problems ≠ []) :
    report.summary ≠ "no match" := by
  intro silent
  obtain ⟨c, rest, begins, other⟩ := opens_summary some
  rw [silent] at begins
  exact other (List.cons.inj begins).1.symm

end Report

/-- A tracker that has gained sound failures since it was made, one of them at the start of the text
or beyond it, has a report that says something. -/
theorem report_of_tells {input : Input} {tracker : Tracker} {gained : List Recording}
    (gains : Tracker.Gains input {} gained tracker) (tells : Tells (.start input) gained) :
    let report := tracker.report input
    (0 ≤ report.offset ∧ report.offset ≤ input.size) ∧ report.failures ≠ [] ∧
      (report.expected ≠ [] ∨ report.unexpected ≠ [] ∨ report.problems ≠ []) := by
  obtain ⟨held, reached⟩ := gains.of_tells .empty tells
  have summary := gains.summarizes .empty
  rw [List.nil_append] at summary
  have furthest := summary.furthest_eq
  have begun : 0 ≤ tracker.furthest := reached
  obtain ⟨record, member⟩ := List.exists_mem_of_ne_nil _ held
  -- Every record that is held is that of a sound failure.
  have recorded := member
  rw [summary.records_eq, Recording.mem_recordsAt] at recorded
  obtain ⟨recording, among, there, rfl⟩ := recorded
  have sound := gains.sound recording among
  have bound := sound.le_size
  refine ⟨⟨?_, ?_⟩, ?_, Report.says_of_record member sound.negative⟩
  · simp only [Tracker.report]
    omega
  · simp only [Tracker.report]
    omega
  · exact mt List.map_eq_nil_iff.mp held

/-! ### Main result -/

section Results

variable {env : Env} {expr : Expr} {scopes : List Scope} {before after : State}

/-- Whatever matching comes to, all that it adds to a history are failures inside the input. -/
theorem Leaves.exists_gained (history : History scopes) {start : Position} {atomic : Bool}
    (begun : before.tracker = history.tracker)
    (leaves : Leaves env expr start atomic before after) :
    ∃ gained, after.tracker.Summarizes (history.recordings ++ gained) ∧
      ∀ recording ∈ gained, 0 ≤ recording.offset ∧ recording.offset ≤ start.input.size := by
  obtain ⟨fuel, ended⟩ := leaves_iff_eval.mp leaves
  have held : before.tracker.Summarizes history.recordings := begun ▸ history.summarizes
  by_cases unmuted : before.tracker.muteDepth = 0
  · have listens : before.tracker.Listens := by
      rw [begun] at unmuted ⊢
      exact history.listens unmuted
    have accounted := eval_accounts env start.input fuel expr start atomic rfl before listens
    obtain ⟨gained, gains⟩ := accounted.exists_gains ended
    refine ⟨gained, gains.summarizes held, fun recording member => ?_⟩
    have sound := gains.sound recording member
    exact ⟨sound.nonneg, sound.le_size⟩
  · -- A muted tracker stays as it is.
    have quiet := Action.Drifts.eval Tracker.quiet_drift env fuel expr start atomic
    have same := quiet before after ended (Nat.pos_of_ne_zero unmuted)
    refine ⟨[], ?_, nofun⟩
    rw [same, List.append_nil]
    exact held

/-- Matching records nothing beyond the end of the text. -/
theorem Leaves.furthest_le (history : History scopes) {start : Position} {atomic : Bool}
    (begun : before.tracker = history.tracker) (leaves : Leaves env expr start atomic before after)
    (within : before.tracker.furthest ≤ start.input.size) :
    after.tracker.furthest ≤ start.input.size := by
  obtain ⟨gained, summary, inside⟩ := leaves.exists_gained history begun
  have held : before.tracker.Summarizes history.recordings := begun ▸ history.summarizes
  rw [summary.furthest_eq, Recording.furthestOffset_append, ← held.furthest_eq]
  refine max_le within ?_
  by_cases nothing : -1 < Recording.furthestOffset gained
  · obtain ⟨recording, member, furthest⟩ := Recording.exists_furthest nothing
    exact furthest ▸ (inside recording member).2
  · omega

theorem Finishes.tells (history : History scopes) {start : Position} {atomic : Bool}
    (speaks : Throughout env Expr.Speaks expr) (begun : before.tracker = history.tracker)
    (unmuted : before.tracker.muteDepth = 0)
    (missed : Finishes env expr start atomic before none after) :
    after.tracker.records ≠ [] ∧ (start.offset : Int) ≤ after.tracker.furthest := by
  obtain ⟨fuel, ended⟩ := finishes_iff_eval.mp missed
  have held : before.tracker.Summarizes history.recordings := begun ▸ history.summarizes
  have listens : before.tracker.Listens := by
    rw [begun] at unmuted ⊢
    exact history.listens unmuted
  have accounted := eval_accounts env start.input fuel expr start atomic rfl before listens
  rw [ended] at accounted
  obtain ⟨gained, gains, told⟩ := accounted
  exact gains.of_tells held (told speaks rfl)

/-- The report of a failed parse that starts with a new tracker. -/
theorem report_of_parse {fuel : Nat} {report : Report} (speaks : Throughout env Expr.Speaks expr)
    (fresh : before.tracker = {})
    (failed : parse env fuel expr before = .done (.error report) after ∨
      parsePartial env fuel expr before = .done (.error report) after) :
    (0 ≤ report.offset ∧ report.offset ≤ env.input.size) ∧ report.failures ≠ [] ∧
      (report.expected ≠ [] ∨ report.unexpected ≠ [] ∨ report.problems ≠ []) := by
  have listens : before.tracker.Listens := by
    rw [fresh]
    exact ⟨rfl, List.not_mem_nil⟩
  obtain ⟨gained, gains, told⟩ : ∃ gained,
      before.tracker.Gains env.input gained after.tracker ∧
        ToldOf env expr (.error report) gained := by
    rcases failed with ended | ended
    · have accounted := parse_accounts env fuel expr before listens
      rwa [ended] at accounted
    · have accounted := parsePartial_accounts env fuel expr before listens
      rwa [ended] at accounted
  have same : report = after.tracker.report env.input := by
    rcases failed with ended | ended
    · exact report_eq_of_parse ended
    · exact report_eq_of_parsePartial ended
  rw [fresh] at gains
  have tells := told speaks report rfl
  subst same
  exact report_of_tells gains tells

end Results

/-- Whatever matching comes to, what it records are failures inside the text. If no expression that
always fails is contained in an expression, and the bounds of repetitions are in order, then it does
not fail in silence: unless the tracker is muted, it holds a failure afterwards, and none that is
nearer than where the expression was tried. A parse of the whole text or of a prefix then reports a
place inside the text and at least one failure, and says what was expected, what was unexpected or
what is wrong. -/
theorem no_failure_is_silent (env : Env) (expr : Expr) :
    (∀ {scopes : List Scope} (history : History scopes) (start : Position) (atomic : Bool)
        (before after : State), before.tracker = history.tracker →
        Leaves env expr start atomic before after →
        ∃ gained, after.tracker.Summarizes (history.recordings ++ gained) ∧
          ∀ recording ∈ gained, 0 ≤ recording.offset ∧ recording.offset ≤ start.input.size) ∧
      (¬Contains env expr (.terminal .alwaysFail) → Throughout env Expr.InOrder expr →
        (∀ {scopes : List Scope} (history : History scopes) (start : Position) (atomic : Bool)
            (before after : State), before.tracker = history.tracker →
            before.tracker.muteDepth = 0 → Finishes env expr start atomic before none after →
            after.tracker.records ≠ [] ∧ (start.offset : Int) ≤ after.tracker.furthest) ∧
          ∀ (fuel : Nat) (before after : State) (report : Report), before.tracker = {} →
            (parse env fuel expr before = .done (.error report) after ∨
              parsePartial env fuel expr before = .done (.error report) after) →
            (0 ≤ report.offset ∧ report.offset ≤ env.input.size) ∧ report.failures ≠ [] ∧
              (report.expected ≠ [] ∨ report.unexpected ≠ [] ∨ report.problems ≠ []) ∧
              report.summary ≠ "no match") := by
  refine ⟨fun history start atomic before after begun leaves => ?_, fun loud ordered => ?_⟩
  · exact leaves.exists_gained history begun
  · have speaks : Throughout env Expr.Speaks expr := by
      intro part contains
      refine ⟨?_, ordered part contains⟩
      rintro rfl
      exact loud contains
    refine ⟨fun history start atomic before after begun unmuted missed => ?_,
      fun fuel before after report fresh failed => ?_⟩
    · exact missed.tells history speaks begun unmuted
    · obtain ⟨place, failures, some⟩ := report_of_parse speaks fresh failed
      exact ⟨place, failures, some, Report.summary_ne some⟩

/-- Two letters or three, but not after another one. -/
def twoLetters : Expr := .seq (.negative (.literal "b")) [.rep (.literal "a") 2 (some 3)]

theorem twoLetters_speaks (env : Env) : Throughout env Expr.Speaks twoLetters := by
  refine .of_parts ⟨nofun, trivial⟩ fun part uses => ?_
  cases uses with
  | seq among =>
    simp only [List.mem_cons, List.not_mem_nil, or_false] at among
    rcases among with rfl | rfl
    · refine .of_parts ⟨nofun, trivial⟩ fun part uses => ?_
      cases uses
      exact .terminal ⟨nofun, trivial⟩
    · refine .of_parts ⟨nofun, Nat.le_succ 2⟩ fun part uses => ?_
      cases uses
      exact .terminal ⟨nofun, trivial⟩

/-- That the second letter is missing is told by matching inside of a rule and by a parse. -/
theorem missing_letter_told :
    (∃ after, Leaves { input := ⟨0, #['a']⟩ } twoLetters (.start ⟨0, #['a']⟩) false {} after ∧
        ∃ gained, after.tracker.Summarizes gained ∧
          ∀ recording ∈ gained, 0 ≤ recording.offset ∧ recording.offset ≤ 1) ∧
      (∃ after, Finishes { input := ⟨0, #['a']⟩ } twoLetters (.start ⟨0, #['a']⟩) false
          { tracker := { rules := ["letters"] } } none after ∧
        after.tracker.records ≠ [] ∧ 0 ≤ after.tracker.furthest) ∧
      ∃ report after, parse { input := ⟨0, #['a']⟩ } 30 twoLetters {} =
          .done (.error report) after ∧ report.failures ≠ [] ∧
        report.summary ≠ "no match" := by
  have loud : ¬Contains { input := ⟨0, #['a']⟩ } twoLetters (.terminal .alwaysFail) :=
    fun contains => (twoLetters_speaks _ _ contains).1 rfl
  have ordered : Throughout { input := ⟨0, #['a']⟩ } Expr.InOrder twoLetters :=
    fun part contains => (twoLetters_speaks _ part contains).2
  have result := no_failure_is_silent { input := ⟨0, #['a']⟩ } twoLetters
  refine ⟨?_, ?_, ?_⟩
  · obtain ⟨after, leaves⟩ : ∃ after, Leaves { input := ⟨0, #['a']⟩ } twoLetters
        (.start ⟨0, #['a']⟩) false {} after := ⟨_, 30, rfl⟩
    exact ⟨after, leaves, result.1 .start _ false {} after rfl leaves⟩
  · obtain ⟨after, missed⟩ : ∃ after, Finishes { input := ⟨0, #['a']⟩ } twoLetters
        (.start ⟨0, #['a']⟩) false { tracker := { rules := ["letters"] } } none after :=
      ⟨_, 30, rfl⟩
    exact ⟨after, missed, (result.2 loud ordered).1 (.enter .start (.rule "letters")) _ false _
      after rfl rfl missed⟩
  · refine ⟨_, _, rfl, ?_⟩
    have reported := (result.2 loud ordered).2 30 {} _ _ rfl (.inl rfl)
    exact ⟨reported.2.1, reported.2.2.2⟩

end Peg
