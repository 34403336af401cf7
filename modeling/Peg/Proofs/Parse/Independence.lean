import Peg.Catalogue
import Peg.Proofs.Machine.Indifference
import Peg.Proofs.Parse.Reports
import Peg.Proofs.Parse.ShowsAll

/-!
# Calls one after the other

Calls that parse with the same expressions share nothing but what is remembered of lazy expressions.
That has no influence on what a call matches, but it shows in the texts of lookaheads: a lookahead
whose body has a lazy expression that was looked up by an earlier call is reported under another
text than in a call that comes first. It may even have no text any more, and then the call is broken
off. Nothing else of an answer depends on the calls before.

## Main result

In a series of calls each answers what it would answer as the first one, but for the texts under
which failed lookaheads are reported, unless it is broken off because one of them has no text.
-/
namespace Peg

/-! ### Failures without the texts of lookaheads -/

/-- The failure, without the text of the body if it is that of a lookahead. -/
def Failure.blank : Failure → Failure
  | predicate positive _ => predicate positive ""
  | failure => failure

/-- The record, without the text of the body if it is that of a lookahead. -/
def Record.blank (record : Record) : Record := { record with failure := record.failure.blank }

section Distinct

variable {α β : Type} [DecidableEq α] [DecidableEq β]

theorem distinct_concat (list : List α) (element : α) :
    distinct (list ++ [element]) = insertNew (distinct list) element := by
  simp [distinct, List.foldl_append]

theorem insertNew_distinct (list : List α) (element : α) (f : α → β) :
    distinct ((insertNew list element).map f) = insertNew (distinct (list.map f)) (f element) := by
  by_cases present : element ∈ list
  · have mapped : f element ∈ distinct (list.map f) :=
      mem_distinct.mpr (List.mem_map_of_mem present)
    rw [insertNew_of_mem present, insertNew_of_mem mapped]
  · rw [insertNew, if_neg present, List.map_append, List.map_singleton, distinct_concat]

/-- What is picked from a list only once is what is picked from its different elements. -/
theorem distinct_filterMap (list : List α) (pick : α → Option β) :
    distinct ((distinct list).filterMap pick) = distinct (list.filterMap pick) := by
  induction list using List.reverseRecOn with
  | nil => rfl
  | append_singleton list element ih =>
    rw [distinct_concat]
    by_cases present : element ∈ distinct list
    · rw [insertNew_of_mem present, ih, List.filterMap_append]
      cases picked : pick element with
      | none => simp [picked]
      | some value =>
        have among : value ∈ distinct (list.filterMap pick) :=
          mem_distinct.mpr (List.mem_filterMap.mpr ⟨element, mem_distinct.mp present, picked⟩)
        simp [picked, distinct_concat, insertNew_of_mem among]
    · rw [insertNew, if_neg present, List.filterMap_append, List.filterMap_append]
      cases picked : pick element with
      | none => simpa [picked] using ih
      | some value => simp [picked, distinct_concat, ih]

end Distinct

/-- The trackers hold the same, but for the texts of lookaheads. -/
structure Tracker.SameButTexts (left right : Tracker) : Prop where
  scopes : left.SameScopes right
  furthest : left.furthest = right.furthest
  records : distinct (left.records.map Record.blank) = distinct (right.records.map Record.blank)

namespace Tracker.SameButTexts

variable {left right : Tracker}

theorem refl (tracker : Tracker) : SameButTexts tracker tracker := ⟨.refl tracker, rfl, rfl⟩

theorem recordOf_blank (same : SameButTexts left right) {failure other : Failure}
    (alike : failure.blank = other.blank) (kind : Option Lookahead) :
    (left.recordOf failure kind).blank = (right.recordOf other kind).blank := by
  have kinds : left.kind = right.kind := congrArg List.head? same.scopes.kinds
  simp only [recordOf, Record.blank, alike, same.scopes.rules, kinds]

/-- The same failure is recorded on both sides, be it under different texts. -/
theorem record (same : SameButTexts left right) {failure other : Failure}
    (alike : failure.blank = other.blank) (offset : Int) (kind : Option Lookahead) :
    SameButTexts (left.recordFailure failure offset kind)
      (right.recordFailure other offset kind) := by
  have scopes := (sameScopes_recordFailure left failure offset kind).symm.trans
    (same.scopes.trans (sameScopes_recordFailure right other offset kind))
  have recorded := same.recordOf_blank alike kind
  have muted := same.scopes.muteDepth
  have furthest := same.furthest
  by_cases silent : 0 < right.muteDepth
  · rw [recordFailure_of_muted _ _ _ silent, recordFailure_of_muted _ _ _ (by omega)]
    exact same
  rcases lt_trichotomy offset right.furthest with near | rfl | beyond
  · rw [recordFailure_of_near _ _ _ near, recordFailure_of_near _ _ _ (by omega)]
    exact same
  · refine ⟨scopes, ?_, ?_⟩
    · rw [recordFailure_furthest _ _ _ (by omega), recordFailure_furthest _ _ _ (by omega),
        furthest]
    · rw [recordFailure_of_level right _ _ (by omega), ← furthest,
        recordFailure_of_level left _ _ (by omega)]
      dsimp only
      rw [insertNew_distinct, insertNew_distinct, same.records, recorded]
  · refine ⟨scopes, ?_, ?_⟩
    · rw [recordFailure_furthest _ _ _ (by omega), recordFailure_furthest _ _ _ (by omega),
        furthest]
    · rw [recordFailure_of_beyond right _ _ (by omega) beyond,
        recordFailure_of_beyond left _ _ (by omega) (by omega)]
      simp only [List.map_singleton, recorded]

/-- Which failures are held does not change when scopes are opened and closed. -/
theorem rescope (same : SameButTexts left right) {before after : Tracker}
    (scopes : before.SameScopes after) (early : left.SameFailures before)
    (late : right.SameFailures after) : SameButTexts before after := by
  refine ⟨scopes, ?_, ?_⟩
  · rw [← early.furthest, ← late.furthest, same.furthest]
  · rw [← early.records, ← late.records, same.records]

theorem blur : Tracker.Blur SameButTexts where
  record failure offset kind same := same.record rfl offset kind
  enter scope same :=
    same.rescope (same.scopes.enter scope) (sameFailures_enter _ scope) (sameFailures_enter _ scope)
  leave scope same :=
    same.rescope (same.scopes.leave scope) (sameFailures_leave _ scope) (sameFailures_leave _ scope)
  predicate positive label other offset same := by
    have alike :
        (Failure.predicate positive label).blank = (Failure.predicate positive other).blank := rfl
    exact same.record alike offset _

end Tracker.SameButTexts

/-! ### Reports -/

/-- A report reads as another one does: it is of the same place and has the same problems and rules,
and where the other one is of no failed lookahead, it is also worded in the same way. -/
structure Report.ReadsAs (left right : Report) : Prop where
  offset : left.offset = right.offset
  line : left.line = right.line
  column : left.column = right.column
  problems : left.problems = right.problems
  rules : left.rules = right.rules
  predicate : left.predicate = right.predicate
  wording : (∀ record ∈ right.records, ∀ positive text,
      record.failure ≠ .predicate positive text) →
    left.expected = right.expected ∧ left.unexpected = right.unexpected ∧
      left.message = right.message

/-- The reports hold the same failures, but for the texts of lookaheads. -/
structure Report.SameButTexts (left right : Report) : Prop where
  input : left.input = right.input
  offset : left.offset = right.offset
  records : distinct (left.records.map Record.blank) = distinct (right.records.map Record.blank)

namespace Report.SameButTexts

variable {left right : Report}

/-- What does not depend on texts of lookaheads is picked alike from both reports. -/
theorem pick {α : Type} [DecidableEq α] (same : left.SameButTexts right) {pick : Record → Option α}
    (indifferent : ∀ record : Record, pick record.blank = pick record) :
    distinct (left.records.filterMap pick) = distinct (right.records.filterMap pick) := by
  have picked : ∀ records : List Record,
      distinct (records.filterMap pick) = distinct ((records.map Record.blank).filterMap pick) := by
    intro records
    rw [List.filterMap_map]
    congr 2
    funext record
    exact (indifferent record).symm
  rw [picked left.records, picked right.records, ← distinct_filterMap, same.records,
    distinct_filterMap]

theorem blank_isExpectation (failure : Failure) :
    failure.blank.isExpectation = failure.isExpectation := by
  cases failure <;> rfl

theorem blank_describe {failure : Failure} (problem : failure.isExpectation = false) :
    failure.blank = failure := by
  cases failure with
  | predicate => cases problem
  | _ => rfl

theorem problems_eq (same : left.SameButTexts right) : left.problems = right.problems := by
  refine same.pick fun record => ?_
  simp only [Record.blank, blank_isExpectation]
  split
  · rfl
  next problem => rw [blank_describe (Bool.eq_false_iff.mpr problem)]

theorem rules_eq (same : left.SameButTexts right) : left.rules = right.rules :=
  same.pick fun _ => rfl

theorem line_eq (same : left.SameButTexts right) : left.line = right.line := by
  rw [line, line, same.input, same.offset]

theorem column_eq (same : left.SameButTexts right) : left.column = right.column := by
  rw [column, column, same.input, same.offset]

theorem predicate_eq (same : left.SameButTexts right) : left.predicate = right.predicate := by
  have kinds :
      distinct (left.records.map Record.kind) = distinct (right.records.map Record.kind) := by
    simp only [← List.filterMap_eq_map']
    exact same.pick fun _ => rfl
  rw [predicate, predicate, kinds]

/-- A report that tells of no lookahead is told alike on both sides. -/
theorem records_eq (same : left.SameButTexts right)
    (plain : ∀ record ∈ right.records, ∀ positive text, record.failure ≠ .predicate positive text) :
    distinct left.records = distinct right.records := by
  have blank_eq : ∀ {failure : Failure}, (∀ positive text, failure ≠ .predicate positive text) →
      failure.blank = failure := by
    intro failure plain
    cases failure with
    | predicate positive text => exact absurd rfl (plain positive text)
    | _ => rfl
  have kept : ∀ record ∈ right.records, record.blank = record := by
    intro record member
    rw [Record.blank, blank_eq (plain record member)]
  have also : ∀ record ∈ left.records, record.blank = record := by
    intro record member
    -- The other report has the same failure, which is none of a lookahead.
    have among : record.blank ∈ distinct (right.records.map Record.blank) := by
      rw [← same.records]
      exact mem_distinct.mpr (List.mem_map_of_mem member)
    obtain ⟨other, there, equal⟩ := List.mem_map.mp (mem_distinct.mp among)
    have unlike := plain other there
    have failures : other.failure = record.failure.blank := by
      rw [kept other there] at equal
      exact congrArg Record.failure equal
    rw [Record.blank, blank_eq]
    rintro positive text failed
    rw [failed] at failures
    exact unlike positive "" failures
  have records := same.records
  rwa [List.map_congr_left kept, List.map_congr_left also, List.map_id', List.map_id'] at records

/-- Such a report is worded in the same way. -/
theorem message_eq (same : left.SameButTexts right)
    (plain : ∀ record ∈ right.records, ∀ positive text, record.failure ≠ .predicate positive text) :
    left.expected = right.expected ∧ left.unexpected = right.unexpected ∧
      left.message = right.message := by
  have records := same.records_eq plain
  have expected : left.expected = right.expected := by
    rw [expected, expected, ← distinct_filterMap, records, distinct_filterMap]
  have unexpected : left.unexpected = right.unexpected := by
    rw [unexpected, unexpected, ← distinct_filterMap, records, distinct_filterMap]
  refine ⟨expected, unexpected, ?_⟩
  have summary : left.summary = right.summary := by
    rw [Report.summary, Report.summary, expected, unexpected, same.problems_eq]
  have excerpt : left.excerpt = right.excerpt := by
    rw [Report.excerpt, Report.excerpt, same.input, same.offset]
  unfold message
  rw [same.line_eq, same.column_eq, same.offset, same.rules_eq, summary, excerpt]

theorem readsAs (same : left.SameButTexts right) : left.ReadsAs right :=
  ⟨same.offset, same.line_eq, same.column_eq, same.problems_eq, same.rules_eq, same.predicate_eq,
    same.message_eq⟩

end Report.SameButTexts

/-! ### Parses -/

/-- The same match, or reports that are the same but for the texts of lookaheads. -/
inductive Parsed.Alike : Parsed → Parsed → Prop
  | ok (found : Match) : Alike (.ok found) (.ok found)
  | error {left right : Report} : left.SameButTexts right → Alike (.error left) (.error right)

/-- The states that two calls may be in at the same time. -/
abbrev State.InStep : State → State → Prop :=
  State.SameStack Tracker.SameButTexts (LookedUp True)

/-- Two parses come to the same end, but for the texts of lookaheads, unless the one before which
more was looked up has no text to show. -/
inductive Outcome.InStep : Outcome Parsed → Outcome Parsed → Prop
  | done {parsed other : Parsed} {left right : State} :
      parsed.Alike other → left.InStep right → InStep (.done parsed left) (.done other right)
  | fault (cause : Fault) (left right : State) : InStep (.fault cause left) (.fault cause right)
  | exhausted : InStep .exhausted .exhausted
  | endless (left : State) (other : Outcome Parsed) : InStep (.fault .endlessText left) other

section Parses

variable {env : Env} {left right : State}

/-- Two actions in a row, of which the first one ends alike. -/
theorem Outcome.InStep.bind {α : Type} {first : Action α} {next : α → Action Parsed}
    (early : Action.SimulatesUnless True State.InStep first) (states : left.InStep right)
    (late : ∀ value {left right : State}, left.InStep right →
      (next value left).InStep (next value right)) :
    ((first >>= next) left).InStep ((first >>= next) right) := by
  rcases early left right states with ⟨_, after, broken⟩ | began
  · rw [Action.bind_of_fault broken]
    exact .endless after _
  generalize reached : first left = outcome at began
  generalize met : first right = other at began
  cases began with
  | done value middle =>
    rw [Action.bind_of_done reached, Action.bind_of_done met]
    exact late value middle
  | fault cause after =>
    rw [Action.bind_of_fault reached, Action.bind_of_fault met]
    exact .fault cause _ _
  | exhausted =>
    rw [Action.bind_of_exhausted reached, Action.bind_of_exhausted met]
    exact .exhausted

theorem reportFailure_inStep (states : left.InStep right) :
    (reportFailure env left).InStep (reportFailure env right) := by
  obtain ⟨early, reported⟩ := reportFailure_eq env left
  obtain ⟨late, also⟩ := reportFailure_eq env right
  rw [reported, also]
  have same := states.tracker
  refine .done (.error ⟨rfl, ?_, same.records⟩) ⟨states.stack, same, states.forced⟩
  simp only [Tracker.report, same.furthest]

variable (env) (fuel : Nat) (expr : Expr)

theorem run_inStep (start : Position) (atomic : Bool) :
    Action.SimulatesUnless True State.InStep (run env fuel expr start atomic) :=
  run_sameStackUnless Tracker.SameButTexts.blur env fuel expr start atomic True

theorem parsePartial_inStep (states : left.InStep right) :
    (parsePartial env fuel expr left).InStep (parsePartial env fuel expr right) := by
  refine .bind (run_inStep env fuel expr _ false) states fun result left right states => ?_
  cases result with
  | none => exact reportFailure_inStep states
  | some found => exact .done (.ok found) states

theorem matchRest_inStep (here : Position) :
    Action.SimulatesUnless True State.InStep (matchRest env fuel expr here) := by
  unfold matchRest
  split
  · exact (Action.Simulates.pure here).unless
  · exact .bind (run_inStep env fuel .ignored here false) fun _ => (Action.Simulates.pure _).unless

theorem parse_inStep (states : left.InStep right) :
    (parse env fuel expr left).InStep (parse env fuel expr right) := by
  have began := parsePartial_inStep env fuel expr states
  generalize reached : parsePartial env fuel expr left = outcome at began
  generalize met : parsePartial env fuel expr right = other at began
  unfold parse
  cases began with
  | done parsed middle =>
    rw [Action.bind_of_done reached, Action.bind_of_done met]
    cases parsed with
    | error same => exact .done (.error same) middle
    | ok found =>
      refine .bind (matchRest_inStep env fuel expr found.stop) middle fun stop left right rest => ?_
      refine .bind (run_inStep env fuel _ stop false) rest fun result left right last => ?_
      cases result with
      | none => exact reportFailure_inStep last
      | some final => exact .done (.ok _) last
  | fault cause =>
    rw [Action.bind_of_fault reached, Action.bind_of_fault met]
    exact .fault cause _ _
  | exhausted =>
    rw [Action.bind_of_exhausted reached, Action.bind_of_exhausted met]
    exact .exhausted
  | endless after =>
    rw [Action.bind_of_fault reached]
    exact .endless after _

end Parses

/-! ### Calls -/

/-- The same match or error, or reports of which the one reads as the other; or the one on the left
is broken off because an expression that it was to show has no text. -/
inductive SameAnswer : Except CallError Match → Except CallError Match → Prop
  | same (answer : Except CallError Match) : SameAnswer answer answer
  | rejected {left right : Report} : left.ReadsAs right →
      SameAnswer (.error (.rejected left)) (.error (.rejected right))
  | endless (answer : Except CallError Match) : SameAnswer (.error (.fault .endlessText)) answer

section Calls

variable (rules : List (String × Expr)) (definitions : Definitions) {forced others : List LazyCell}
  (more : others ⊆ forced)

include more

theorem ofAction_sameAnswer {action : Action Parsed}
    (inStep : ∀ {left right : State}, left.InStep right → (action left).InStep (action right)) :
    SameAnswer (Reply.ofAction action forced).answer (Reply.ofAction action others).answer := by
  have ended : (action { forced }).InStep (action { forced := others }) :=
    inStep ⟨rfl, .refl _, more, .inl trivial⟩
  unfold Reply.ofAction
  generalize action { forced } = outcome at ended
  generalize action { forced := others } = other at ended
  cases ended with
  | done parsed states =>
    cases parsed with
    | ok found => exact .same _
    | error same => exact .rejected same.readsAs
  | fault | exhausted => exact .same _
  | endless => exact .endless _

theorem Call.parse_sameAnswer (call : Call) (operand : Operand) (fuel : Nat) :
    SameAnswer (call.parse rules definitions forced operand fuel).answer
      (call.parse rules definitions others operand fuel).answer := by
  unfold Call.parse
  dsimp only
  split
  · exact .same _
  next expr env _ =>
    refine ofAction_sameAnswer more fun states => ?_
    split
    · exact parse_inStep env fuel expr states
    · exact parsePartial_inStep env fuel expr states

theorem Call.parseAlone_sameAnswer (call : Call) (operand : Operand) (fuel : Nat) :
    SameAnswer (call.parseAlone rules definitions forced operand fuel).answer
      (call.parseAlone rules definitions others operand fuel).answer := by
  cases operand with
  | expr expr => exact call.parse_sameAnswer rules definitions more (.expr expr) fuel
  | _ => exact .same _

omit more

/-- What a grammar answers depends on the answer of the parse alone: an error takes the place of a
report of something that has no name. -/
theorem Grammar.noteFailure_answer (grammar : Grammar) (origin : Operand) (tracing : Bool)
    (reply : Reply) : (grammar.noteFailure origin tracing reply).answer =
      match reply.answer, origin.name? with
      | .error (.rejected _), none => .error (.lacks origin.shortTypeName "name")
      | answer, _ => answer := by
  obtain ⟨answer, trace, forced⟩ := reply
  unfold noteFailure
  cases answer with
  | ok found => rfl
  | error error =>
    cases error with
    | rejected report =>
      cases origin.name? with
      | none => rfl
      | some name => cases tracing <;> rfl
    | _ => rfl

theorem Grammar.noteFailure_answer_of_named (grammar : Grammar) {origin : Operand} {name : String}
    (named : origin.name? = some name) (tracing : Bool) (reply : Reply) :
    (grammar.noteFailure origin tracing reply).answer = reply.answer := by
  rw [noteFailure_answer, named]
  cases reply.answer with
  | ok found => rfl
  | error error => cases error <;> rfl

theorem Grammar.noteFailure_sameAnswer (grammar : Grammar) (origin : Operand) (tracing : Bool)
    {left right : Reply} (same : SameAnswer left.answer right.answer) :
    SameAnswer (grammar.noteFailure origin tracing left).answer
      (grammar.noteFailure origin tracing right).answer := by
  rw [noteFailure_answer, noteFailure_answer]
  generalize left.answer = answer at same
  generalize right.answer = other at same
  cases same with
  | same => exact .same _
  | rejected same =>
    cases origin.name? with
    | none => exact .same _
    | some name => exact .rejected same
  | endless => exact .endless _

end Calls

/-- What is asked of a catalogue: that an operand parses a text by itself, or that one of the
grammars does. -/
inductive Request where
  | operand (operand : Operand) (call : Call)
  | grammar (number : Nat) (start : Start) (call : Call)

/-- What comes of a request: an error, or a reply. -/
inductive Catalogue.SameResult : Except GrammarError Reply → Except GrammarError Reply → Prop
  | error (error : GrammarError) : SameResult (.error error) (.error error)
  | ok {left right : Reply} :
      SameAnswer left.answer right.answer → SameResult (.ok left) (.ok right)

namespace Catalogue

/-- The result of a request after the given lazy expressions were looked up. -/
def serve (catalogue : Catalogue) (definitions : Definitions) (fuel : Nat)
    (forced : List LazyCell) : Request → Except GrammarError Reply
  | .operand operand call => catalogue.parse definitions forced operand call fuel
  | .grammar number start call =>
    (catalogue.grammar number).parse definitions forced start call fuel

/-- The lazy expressions that have been looked up after a request. -/
def forcedAfter (forced : List LazyCell) : Except GrammarError Reply → List LazyCell
  | .ok reply => reply.forced
  | .error _ => forced

/-- The results of requests that are served one after the other. -/
def serveAll (catalogue : Catalogue) (definitions : Definitions) (fuel : Nat) :
    (forced : List LazyCell) → List Request → List (Except GrammarError Reply)
  | _, [] => []
  | forced, request :: rest =>
    let result := catalogue.serve definitions fuel forced request
    result :: catalogue.serveAll definitions fuel (forcedAfter forced result) rest

end Catalogue

section Requests

variable (definitions : Definitions) (fuel : Nat) {forced others : List LazyCell}
  (more : others ⊆ forced)

include more

theorem Grammar.parse_sameResult (grammar : Grammar) (start : Start) (call : Call) :
    Catalogue.SameResult (grammar.parse definitions forced start call fuel)
      (grammar.parse definitions others start call fuel) := by
  unfold parse
  cases grammar.origin start with
  | error error => exact .error error
  | ok origin =>
    have same := Call.parse_sameAnswer grammar.table definitions more
      { call with settings := grammar.complete call.settings } origin fuel
    exact .ok (grammar.noteFailure_sameAnswer origin _ same)

theorem Catalogue.serve_sameResult (catalogue : Catalogue) (request : Request) :
    SameResult (catalogue.serve definitions fuel forced request)
      (catalogue.serve definitions fuel others request) := by
  cases request with
  | operand operand call =>
    simp only [serve, parse]
    split
    · exact .ok (call.parseAlone_sameAnswer [] definitions more operand fuel)
    · exact (catalogue.grammar _).parse_sameResult definitions fuel more _ call
  | grammar number start call =>
    exact (catalogue.grammar number).parse_sameResult definitions fuel more start call

end Requests

/-! ### Calls where texts end -/

/-- Whether the result is that an expression has no text to show. -/
def isEndless : Except GrammarError Reply → Bool
  | .ok { answer := .error (.fault .endlessText), .. } => true
  | _ => false

section Endless

variable {definitions : Definitions}

theorem Env.definitions_ofSettings {text : Datum} {rules : List (String × Expr)}
    {settings : Settings} {env : Env}
    (made : Env.ofSettings text rules definitions settings = .ok env) :
    env.definitions = definitions := by
  unfold Env.ofSettings at made
  dsimp only [bind, Except.bind] at made
  -- The text, the limit and what is ignored may each be refused.
  iterate 4
    split at made
    · cases made
  cases made
  rfl

theorem ofAction_shown {action : Action Parsed} (shows : action.ShowsAll)
    (forced : List LazyCell) :
    (Reply.ofAction action forced).answer ≠ .error (.fault .endlessText) := by
  intro broken
  rw [Reply.ofAction] at broken
  cases ended : action { forced } with
  | done parsed after =>
    rw [ended] at broken
    cases parsed <;> cases broken
  | fault cause after =>
    rw [ended] at broken
    cases broken
    exact shows _ ⟨after, ended⟩
  | exhausted =>
    rw [ended] at broken
    cases broken

variable (texts : definitions.TextsEnd) (rules : List (String × Expr)) (forced : List LazyCell)
  (fuel : Nat)

include texts

theorem Call.parse_shown (call : Call) (operand : Operand) :
    (call.parse rules definitions forced operand fuel).answer ≠ .error (.fault .endlessText) := by
  unfold Call.parse
  cases operand.toExpr with
  | error error => exact nofun
  | ok expr =>
    cases made : Env.ofSettings call.text rules definitions call.settings with
    | error error => exact nofun
    | ok env =>
      have ends : env.definitions.TextsEnd := (Env.definitions_ofSettings made).symm ▸ texts
      refine ofAction_shown ?_ forced
      split
      · exact .parse ends fuel expr
      · exact .parsePartial ends fuel expr

omit texts in
theorem isEndless_eq_false_iff {reply : Reply} :
    isEndless (.ok reply) = false ↔ reply.answer ≠ .error (.fault .endlessText) := by
  obtain ⟨answer, trace, forced⟩ := reply
  unfold isEndless
  split <;> simp_all

theorem Grammar.parse_shown (grammar : Grammar) (start : Start) (call : Call) :
    isEndless (grammar.parse definitions forced start call fuel) = false := by
  unfold parse
  cases grammar.origin start with
  | error error => rfl
  | ok origin =>
    have shown := Call.parse_shown texts grammar.table forced fuel
      { call with settings := grammar.complete call.settings } origin
    refine isEndless_eq_false_iff.mpr fun broken => shown ?_
    -- An error may take the place of a report, but not of a fault.
    rw [noteFailure_answer] at broken
    split at broken
    · cases broken
    · exact broken

theorem Catalogue.serve_shown (catalogue : Catalogue) (request : Request) :
    isEndless (catalogue.serve definitions fuel forced request) = false := by
  cases request with
  | operand operand call =>
    simp only [serve, parse]
    split
    · refine isEndless_eq_false_iff.mpr ?_
      cases operand with
      | expr expr => exact call.parse_shown texts [] forced fuel (.expr expr)
      | _ => exact nofun
    · exact Grammar.parse_shown texts forced fuel _ _ call
  | grammar number start call =>
    exact (catalogue.grammar number).parse_shown texts forced fuel start call

end Endless

/-- In a series of requests to a catalogue, each one comes to what it would come to if it were the
first: the same match, the same error, or a report of the same place with the same problems and
rules. The wording of a report is the same too, unless it is of a failed lookahead, as the text
under which a lookahead is listed shows which lazy expressions were looked up before. Where there is
no such text after what was looked up, the request is broken off instead; but that never happens if
all texts end. -/
theorem earlier_calls_show_in_texts_only (catalogue : Catalogue) (definitions : Definitions)
    (fuel : Nat) (forced : List LazyCell) (requests : List Request) :
    List.Forall₂ Catalogue.SameResult (catalogue.serveAll definitions fuel forced requests)
        (requests.map (catalogue.serve definitions fuel [])) ∧
      (definitions.TextsEnd → ∀ result ∈ catalogue.serveAll definitions fuel forced requests,
        isEndless result = false) := by
  induction requests generalizing forced with
  | nil => exact ⟨.nil, fun _ _ => nofun⟩
  | cons request rest ih =>
    have first := catalogue.serve_sameResult definitions fuel (List.nil_subset forced) request
    obtain ⟨same, shown⟩ := ih
      (Catalogue.forcedAfter forced (catalogue.serve definitions fuel forced request))
    refine ⟨.cons first same, fun texts => ?_⟩
    exact List.forall_mem_cons.mpr ⟨catalogue.serve_shown texts forced fuel request, shown texts⟩

/-- What was expected, if the result is a report. -/
def expectations : Except GrammarError Reply → List String
  | .ok { answer := .error (.rejected report), .. } => report.expected
  | _ => []

/-- A grammar that looks ahead for one letter and another, of which the second is looked up. -/
def lookingAhead : Catalogue where
  grammars := #[.ofRules [⟨0, "r", .normal,
    .positive (.seq (.literal "a") [.lazy ⟨"b", some 0⟩])⟩]]

/-- The lookahead succeeds in one text, and fails in another one. -/
def successThenFailure : List Request :=
  [.grammar 0 .default { text := .text "ab", whole := false },
    .grammar 0 .default { text := .text "x" }]

/-- The second letter has a text, looked up or not, so that both calls come to an answer. -/
theorem second_call_answers_alike :
    let definitions : Definitions := [("b", .ok (.literal "b"))]
    let results := lookingAhead.serveAll definitions ampleFuel [] successThenFailure
    definitions.TextsEnd ∧
      List.Forall₂ Catalogue.SameResult results
        (successThenFailure.map (lookingAhead.serve definitions ampleFuel [])) ∧
      ∀ result ∈ results, isEndless result = false := by
  intro definitions results
  have texts : definitions.TextsEnd := by
    refine .of_rank (fun _ => 0) fun name target found => ?_
    rw [List.lookup_cons] at found
    split at found
    · cases found
      exact nofun
    · cases found
  obtain ⟨same, shown⟩ := earlier_calls_show_in_texts_only lookingAhead definitions ampleFuel []
    successThenFailure
  exact ⟨texts, same, shown texts⟩

/-- A call that looks up a lazy expression shows in what is expected by the next one. -/
theorem lookup_shows_in_later_text :
    (lookingAhead.serveAll [("b", .ok (.literal "b"))] ampleFuel [] successThenFailure).map
        expectations = [[], ["\"a\"", "&\"a\" ~ \"b\""]] ∧
      successThenFailure.map
        (expectations ∘ lookingAhead.serve [("b", .ok (.literal "b"))] ampleFuel []) =
          [[], ["\"a\"", "&\"a\" ~ Lazy"]] := by
  constructor
  · decide +kernel
  · decide +kernel

/-- A grammar that tries a list of letters, and then looks ahead for another letter before one. -/
def listsAhead : Catalogue where
  grammars := #[.ofRules [⟨0, "r", .normal,
    .choice (.seq (.literal "b") [.lazy ⟨"list", some 0⟩]) [.positive (.lazy ⟨"marked", some 1⟩)]⟩]]

/-- A list is a letter and a list, or nothing. -/
def listDefinitions : Definitions :=
  [("list", .ok (.opt (.seq (.literal "b") [.lazy ⟨"list", some 0⟩]))),
    ("marked", .ok (.seq (.literal "q") [.lazy ⟨"list", some 0⟩]))]

/-- The second call is broken off, since the first one looked up what is shown inside itself. -/
example :
    let requests : List Request :=
      [.grammar 0 .default { text := .text "b" }, .grammar 0 .default { text := .text "x" }]
    (listsAhead.serveAll listDefinitions ampleFuel [] requests).map isEndless = [false, true] ∧
      requests.map (isEndless ∘ listsAhead.serve listDefinitions ampleFuel []) =
        [false, false] := by
  decide +kernel

end Peg
