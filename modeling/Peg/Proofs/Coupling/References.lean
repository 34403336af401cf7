import Peg.Proofs.Coupling.InPlace
import Peg.Proofs.Parse.ShowsAll

/-!
# Where references are transparent

A reference is nothing but what the table of rules holds under its name, and a lazy expression
nothing but what it resolves to. So any of them may be replaced, wherever they stand: in the root,
in the table itself, in the definitions, and in what is ignored. A parse does not get to know of it,
but for the texts of lookaheads that failed, which show a reference as such.

One run follows a reference where the other has its target already. Neither gets ahead in the text
by that, and what is recorded is the same. The records of failed lookaheads are left out, as their
texts differ; how many there are depends on the texts, too, since none is recorded twice.

Texts are where this has an end. A lazy expression that was not looked up is shown by a word, and
what it stands for is not; so a lookahead that fails may have a text before the replacement and none
after it, or the other way round. Then one of the parses is broken off.

## Main result

A parse comes to the same end if references and lazy expressions are replaced by what they stand
for, unless one of the two is broken off for want of a text. That does not happen where all texts
end.
-/
namespace Peg

open List (Forall₂)

/-! ### Replacing -/

/-- The one expression becomes the other one if some references are replaced by what the table holds
under their names, and some lazy expressions by what they resolve to. What is put in place of them
may have been changed in the same way. -/
inductive Replaces (env : Env) : Expr → Expr → Prop
  | terminal (leaf : Terminal) : Replaces env (.terminal leaf) (.terminal leaf)
  | seq {first other : Expr} {rest others : List Expr} :
      Forall₂ (Replaces env) (first :: rest) (other :: others) →
      Replaces env (.seq first rest) (.seq other others)
  | choice {first other : Expr} {rest others : List Expr} :
      Forall₂ (Replaces env) (first :: rest) (other :: others) →
      Replaces env (.choice first rest) (.choice other others)
  | opt {body other : Expr} : Replaces env body other → Replaces env (.opt body) (.opt other)
  | rep {body other : Expr} {min : Nat} {max : Option Nat} :
      Replaces env body other → Replaces env (.rep body min max) (.rep other min max)
  | positive {body other : Expr} :
      Replaces env body other → Replaces env (.positive body) (.positive other)
  | negative {body other : Expr} :
      Replaces env body other → Replaces env (.negative body) (.negative other)
  | restorable {body other : Expr} :
      Replaces env body other → Replaces env (.restorable body) (.restorable other)
  | push {body other : Expr} : Replaces env body other → Replaces env (.push body) (.push other)
  | rule {tag : Nat} {name : String} {kind : RuleKind} {body other : Expr} :
      Replaces env body other → Replaces env (.rule tag name kind body) (.rule tag name kind other)
  | sameRef (name : String) : Replaces env (.ref name) (.ref name)
  | ref {name : String} {target other : Expr} :
      env.rules.lookup name = some target → Replaces env target other →
      Replaces env (.ref name) other
  | sameLazy (cell : LazyCell) : Replaces env (.lazy cell) (.lazy cell)
  | lazy {cell : LazyCell} {target other : Expr} :
      env.definitions.resolve cell = .ok target → Replaces env target other →
      Replaces env (.lazy cell) other
  | ignored : Replaces env .ignored .ignored
  | pair {body other : Expr} : Replaces env body other → Replaces env (.pair body) (.pair other)
  | abstract : Replaces env .abstract .abstract

mutual

/-- Nothing has to be replaced. -/
theorem Replaces.refl (env : Env) : (expr : Expr) → Replaces env expr expr
  | .terminal leaf => .terminal leaf
  | .seq first rest => .seq (.cons (Replaces.refl env first) (Replaces.all_refl env rest))
  | .choice first rest => .choice (.cons (Replaces.refl env first) (Replaces.all_refl env rest))
  | .opt body => .opt (Replaces.refl env body)
  | .rep body _ _ => .rep (Replaces.refl env body)
  | .positive body => .positive (Replaces.refl env body)
  | .negative body => .negative (Replaces.refl env body)
  | .restorable body => .restorable (Replaces.refl env body)
  | .push body => .push (Replaces.refl env body)
  | .rule _ _ _ body => .rule (Replaces.refl env body)
  | .ref name => .sameRef name
  | .lazy cell => .sameLazy cell
  | .ignored => .ignored
  | .pair body => .pair (Replaces.refl env body)
  | .abstract => .abstract

theorem Replaces.all_refl (env : Env) : (exprs : List Expr) → Forall₂ (Replaces env) exprs exprs
  | [] => .nil
  | expr :: rest => .cons (Replaces.refl env expr) (Replaces.all_refl env rest)

end

/-- The one environment becomes the other one if references and lazy expressions are replaced in its
table, in its definitions and in what is ignored. -/
structure Env.Replaces (left right : Env) : Prop where
  input : left.input = right.input
  rules : ∀ name,
    Option.Rel (Peg.Replaces left) (left.rules.lookup name) (right.rules.lookup name)
  definitions : ∀ cell,
    AnswersAlike (Peg.Replaces left) (left.definitions.resolve cell)
      (right.definitions.resolve cell)
  whitespace : Option.Rel (Peg.Replaces left) left.whitespace right.whitespace
  comment : Option.Rel (Peg.Replaces left) left.comment right.comment
  repeatLimit : left.repeatLimit = right.repeatLimit

/-! ### Failures that are not of lookaheads -/

/-- Whether the failure is that of a lookahead. -/
def Failure.isLookahead : Failure → Bool
  | predicate .. => true
  | _ => false

/-- The records that are not of failed lookaheads. -/
def Record.plain (records : List Record) : List Record :=
  records.filter fun record => !record.failure.isLookahead

/-- The same scopes are open, and the same failures are held at the same place but for those of
lookaheads. -/
structure Tracker.SamePlain (left right : Tracker) : Prop where
  scopes : left.SameScopes right
  furthest : left.furthest = right.furthest
  records : Record.plain left.records = Record.plain right.records

section Plain

variable (records : List Record) {record : Record}

theorem Record.plain_insertNew_of_lookahead (lookahead : record.failure.isLookahead = true) :
    plain (insertNew records record) = plain records := by
  unfold insertNew
  split
  · rfl
  · simp [plain, lookahead]

theorem Record.plain_insertNew (other : record.failure.isLookahead = false) :
    plain (insertNew records record) = insertNew (plain records) record := by
  have among : record ∈ plain records ↔ record ∈ records := by simp [plain, other]
  by_cases present : record ∈ records
  · rw [insertNew_of_mem present, insertNew_of_mem (among.mpr present)]
  · rw [insertNew, if_neg present, insertNew, if_neg (mt among.mp present)]
    simp [plain, other]

end Plain

namespace Tracker.SamePlain

variable {left right : Tracker}

theorem refl (tracker : Tracker) : SamePlain tracker tracker := ⟨.refl tracker, rfl, rfl⟩

/-- The same failure is recorded on both sides, or on both that of a lookahead. -/
theorem record (same : SamePlain left right) {failure other : Failure}
    (alike : failure = other ∨ failure.isLookahead = true ∧ other.isLookahead = true)
    (offset : Int) (kind : Option Lookahead) :
    SamePlain (left.recordFailure failure offset kind)
      (right.recordFailure other offset kind) := by
  have scopes := (sameScopes_recordFailure left failure offset kind).symm.trans
    (same.scopes.trans (sameScopes_recordFailure right other offset kind))
  have recorded : left.recordOf failure kind = right.recordOf failure kind := by
    simp only [recordOf, Tracker.kind, same.scopes.rules, same.scopes.kinds]
  have muted := same.scopes.muteDepth
  have furthest := same.furthest
  by_cases silent : 0 < right.muteDepth
  · rw [recordFailure_of_muted _ _ _ silent, recordFailure_of_muted _ _ _ (by omega)]
    exact same
  -- Whether the failure is kept depends on its place, not on whether it is of a lookahead.
  have moved : (left.recordFailure failure offset kind).furthest =
      (right.recordFailure other offset kind).furthest := by
    rw [recordFailure_furthest _ _ _ (by omega), recordFailure_furthest _ _ _ (by omega), furthest]
  refine ⟨scopes, moved, ?_⟩
  rcases lt_trichotomy offset right.furthest with near | rfl | beyond
  · rw [recordFailure_of_near _ _ _ near, recordFailure_of_near _ _ _ (by omega)]
    exact same.records
  · rw [recordFailure_of_level right _ _ (by omega), ← furthest,
      recordFailure_of_level left _ _ (by omega)]
    dsimp only
    rcases alike with rfl | ⟨early, late⟩
    · rw [recorded]
      by_cases lookahead : failure.isLookahead = true
      · rw [Record.plain_insertNew_of_lookahead _ lookahead,
          Record.plain_insertNew_of_lookahead _ lookahead, same.records]
      · have other := Bool.eq_false_iff.mpr lookahead
        rw [Record.plain_insertNew _ other, Record.plain_insertNew _ other, same.records]
    · rw [Record.plain_insertNew_of_lookahead _ early,
        Record.plain_insertNew_of_lookahead _ late, same.records]
  · rw [recordFailure_of_beyond right _ _ (by omega) beyond,
      recordFailure_of_beyond left _ _ (by omega) (by omega)]
    dsimp only
    rcases alike with rfl | ⟨early, late⟩
    · rw [recorded]
    · simp [Record.plain, recordOf, early, late]

/-- Which failures are held does not change when scopes are opened and closed. -/
theorem rescope (same : SamePlain left right) {before after : Tracker}
    (scopes : before.SameScopes after) (early : left.SameFailures before)
    (late : right.SameFailures after) : SamePlain before after := by
  refine ⟨scopes, ?_, ?_⟩
  · rw [← early.furthest, ← late.furthest, same.furthest]
  · rw [← early.records, ← late.records, same.records]

theorem blur : Tracker.Blur SamePlain where
  record _ offset kind same := same.record (.inl rfl) offset kind
  enter scope same :=
    same.rescope (same.scopes.enter scope) (sameFailures_enter _ scope) (sameFailures_enter _ scope)
  leave scope same :=
    same.rescope (same.scopes.leave scope) (sameFailures_leave _ scope) (sameFailures_leave _ scope)
  predicate _ _ _ offset same := same.record (.inr ⟨rfl, rfl⟩) offset _

end Tracker.SamePlain

/-! ### The coupling -/

/-- The coupling of two runs of which one has targets in place of references. All that is matched is
the same. -/
def Coupling.following (env : Env) : Coupling :=
  .inPlace Eq Tracker.SamePlain (fun _ => Eq) (Replaces env) False

theorem Replaces.shape {left right : Env} (replaced : left.Replaces right) :
    {expr other : Expr} → Replaces left expr other →
      (Coupling.following left).Shape left right expr other
  | _, _, .terminal _ => .terminal trivial
  | _, _, .seq exprs => .seq exprs
  | _, _, .choice exprs => .choice exprs
  | _, _, .opt body => .opt body
  | _, _, .rep body => .rep body
  | _, _, .positive body => .positive body
  | _, _, .negative body => .negative body
  | _, _, .restorable body => .restorable body
  | _, _, .push body => .push body
  | _, _, .rule body => .rule rfl body
  | _, _, .sameRef name => .ref (replaced.rules name)
  | _, _, .ref defined target => .leftRef defined (Replaces.shape replaced target)
  | _, _, .sameLazy cell => .lazy (replaced.definitions cell)
  | _, _, .lazy resolved target => .leftLazy id resolved (Replaces.shape replaced target)
  | _, _, .ignored => .ignored
  | _, _, .pair body => .pair body
  | _, _, .abstract => .abstract

theorem Coupling.following_lawful {left right : Env} (replaced : left.Replaces right) :
    (Coupling.following left).Lawful left right where
  shape exprs := exprs.shape replaced
  repeatLimit := replaced.repeatLimit
  skippers := Env.forall₂_skippers replaced.whitespace replaced.comment
  faults _ := rfl
  same := by
    rintro here _ there _ rfl rfl
    rfl
  spanTo := inPlace_spanTo
  attempt _ := inPlace_attempt Tracker.SamePlain.blur (fun _ => rfl) _
  nothing := rfl
  seq := by
    rintro span _ items others rfl nodes
    cases eq_of_forall₂ nodes
    rfl
  choice := by
    rintro span _ child _ index rfl rfl
    rfl
  opt := by
    rintro span _ child _ rfl rfl
    rfl
  rep := by
    rintro span _ items others rfl nodes
    cases eq_of_forall₂ nodes
    rfl
  predicate := by
    rintro span _ child _ positive rfl rfl
    rfl
  push := by
    rintro span _ child _ rfl rfl
    rfl
  rule := by
    rintro name kind _ span _ child _ rfl rfl rfl
    rfl
  bodyAtomic := by
    rintro name kind _ atomic rfl
    rfl
  record := by
    rintro held other here _ failure rfl same
    exact same.record (.inl rfl) _ _
  text _ must := must.elim
  recordPredicate := by
    rintro held other here _ label text positive - rfl same
    exact Tracker.SamePlain.blur.predicate positive _ _ _ same
  enter scopes same :=
    scopes.eq id ▸ Tracker.enterAny_related (fun scope => Tracker.SamePlain.blur.enter scope) _ same
  leave scopes same :=
    scopes.eq id ▸ Tracker.leaveAny_related (fun scope => Tracker.SamePlain.blur.leave scope) _ same

/-! ### Parses -/

/-- Two parses come to the same end: to the same match, or to reports of the same place with the
same failures in the same rules, those of lookaheads apart, or to the same fault. The stack is the
same in any case. -/
inductive Parsed.SameEnd : Outcome Parsed → Outcome Parsed → Prop
  | ok (found : Match) {after also : State} :
      after.stack = also.stack → SameEnd (.done (.ok found) after) (.done (.ok found) also)
  | error {report other : Report} {after also : State} :
      report.offset = other.offset →
      Record.plain report.records = Record.plain other.records → after.stack = also.stack →
      SameEnd (.done (.error report) after) (.done (.error other) also)
  | fault (cause : Fault) {after also : State} :
      after.stack = also.stack → SameEnd (.fault cause after) (.fault cause also)

/-- Ends that correspond are the same to the parse. -/
theorem Coupling.sameEnd {env left right : Env} {first second : Outcome Parsed}
    (ends : (Coupling.following env).Ends ((Coupling.following env).Parses left right) first
      second) : Parsed.SameEnd first second := by
  cases ends with
  | done parsed states =>
    have stack := states.stack.eq
    cases parsed with
    | @ok found matched same =>
      obtain ⟨stop, node⟩ := found
      obtain ⟨_, _⟩ := matched
      cases same.stop
      cases same.node
      exact .ok _ stack
    | error trackers =>
      exact .error (congrArg (max · 0) trackers.furthest) trackers.records stack
  | fault cause states =>
    cases cause
    exact .fault _ states.stack.eq

/-- References are transparent wherever texts end. If in a root, in the table of rules, in the
definitions and in what is ignored some references are replaced by what the table holds under their
names, and some lazy expressions by what they resolve to, then a parse, of the whole text or of a
prefix, comes to an end as before, and to the same one, unless it is broken off before or after the
replacement because an expression that it was to show has no text. If all texts end, that never
happens. -/
theorem references_are_transparent_where_texts_end {left right : Env}
    (replaced : left.Replaces right) {expr other : Expr} (root : Replaces left expr other)
    (before : State) :
    (EndTogetherUnlessEndless Parsed.SameEnd (parse left · expr before)
        (parse right · other before) ∧
      EndTogetherUnlessEndless Parsed.SameEnd (parsePartial left · expr before)
        (parsePartial right · other before)) ∧
    (left.definitions.TextsEnd → right.definitions.TextsEnd →
      EndTogether Parsed.SameEnd (parse left · expr before) (parse right · other before) ∧
        EndTogether Parsed.SameEnd (parsePartial left · expr before)
          (parsePartial right · other before)) := by
  have starts : Position.start left.input = .start right.input :=
    congrArg Position.start replaced.input
  have states : (Coupling.following left).States before before :=
    Coupling.inPlace_states rfl (.refl before.tracker) False.elim
  obtain ⟨whole, part⟩ :=
    (Coupling.following_lawful replaced).parses_togetherUnlessEndless root starts trivial states
  have whole := whole.mono fun _ _ => Coupling.sameEnd
  have part := part.mono fun _ _ => Coupling.sameEnd
  refine ⟨⟨whole, part⟩, fun texts others => ⟨?_, ?_⟩⟩
  · exact whole.together (fun fuel => Action.ShowsAll.parse texts fuel expr before)
      (fun fuel => Action.ShowsAll.parse others fuel other before)
  · exact part.together (fun fuel => Action.ShowsAll.parsePartial texts fuel expr before)
      (fun fuel => Action.ShowsAll.parsePartial others fuel other before)

/-- A table with an atomic rule for words, in front of which a reference stands, and with spaces
that are ignored by reference. -/
def wordByReference : Env where
  input := ⟨0, #['a', 'b', ' ']⟩
  rules := [("start", .ref "word"),
    ("word", .rule 0 "word" .atomic (.rep (.charRange 'a' 'z') 1 none)),
    ("space", .literal " ")]
  whitespace := some (.ref "space")

/-- The same without the references. -/
def wordInPlace : Env where
  input := ⟨0, #['a', 'b', ' ']⟩
  rules := [("start", .rule 0 "word" .atomic (.rep (.charRange 'a' 'z') 1 none)),
    ("word", .rule 0 "word" .atomic (.rep (.charRange 'a' 'z') 1 none)),
    ("space", .literal " ")]
  whitespace := some (.literal " ")

theorem wordByReference_replaces : wordByReference.Replaces wordInPlace where
  input := rfl
  rules name := by
    simp only [wordByReference, wordInPlace, List.lookup_cons, List.lookup_nil]
    split
    · exact .some (.ref rfl (.refl _ _))
    · split
      · exact .some (.refl _ _)
      · split
        · exact .some (.refl _ _)
        · exact .none
  definitions cell := .error _
  whitespace := .some (.ref rfl (.refl _ _))
  comment := .none
  repeatLimit := rfl

/-- No space may follow a word, whether the word is the root or two references lead to it. -/
theorem space_after_word_rejected :
    Parsed.SameEnd (parse wordByReference 30 (.ref "start") {})
        (parse wordInPlace 30 (.rule 0 "word" .atomic (.rep (.charRange 'a' 'z') 1 none)) {}) ∧
      ∃ report after, parse wordByReference 30 (.ref "start") {} = .done (.error report) after ∧
        report.offset = 2 := by
  have root : Replaces wordByReference (.ref "start")
      (.rule 0 "word" .atomic (.rep (.charRange 'a' 'z') 1 none)) :=
    .ref rfl (.ref rfl (.refl _ _))
  have transparent := references_are_transparent_where_texts_end wordByReference_replaces root {}
  have together := (transparent.2 Definitions.textsEnd_nil Definitions.textsEnd_nil).1
  exact ⟨together.ends 30 30 nofun nofun, _, _, rfl, rfl⟩

/-! ### Where texts do not end -/

/-- Nothing has to be replaced in an environment. -/
theorem Env.Replaces.refl (env : Env) : env.Replaces env where
  input := rfl
  rules name := by
    cases env.rules.lookup name with
    | none => exact .none
    | some target => exact .some (.refl env target)
  definitions cell := by
    cases env.definitions.resolve cell with
    | error error => exact .error error
    | ok target => exact .ok (.refl env target)
  whitespace := by
    cases env.whitespace with
    | none => exact .none
    | some skipper => exact .some (.refl env skipper)
  comment := by
    cases env.comment with
    | none => exact .none
    | some skipper => exact .some (.refl env skipper)
  repeatLimit := rfl

/-- Lists, each of which is empty or a letter and a list, and a list with a mark in front. -/
def markedLists : Env where
  input := ⟨0, #['b']⟩
  definitions := [("list", .ok (.opt (.seq (.literal "a") [.lazy ⟨"list", some 0⟩]))),
    ("marked", .ok (.seq (.literal "q") [.lazy ⟨"list", some 0⟩]))]

/-- A list, and then a look ahead for another letter and something else. -/
def listThenLook (expr : Expr) : Expr :=
  .seq (.opt (.lazy ⟨"list", some 0⟩)) [.positive (.seq (.literal "z") [expr])]

/-- A lazy expression that is not looked up is replaced by what it stands for. Before that the parse
is rejected, and after it the lookahead that fails has no text to be reported under. -/
theorem replacing_ends_in_endless_text :
    let marked : Expr := .lazy ⟨"marked", some 1⟩
    let target : Expr := .seq (.literal "q") [.lazy ⟨"list", some 0⟩]
    markedLists.Replaces markedLists ∧
      Replaces markedLists (listThenLook marked) (listThenLook target) ∧
      (∃ report after, parse markedLists 30 (listThenLook marked) {} =
        .done (.error report) after) ∧
      (∃ after, parse markedLists 30 (listThenLook target) {} = .fault .endlessText after) ∧
      ¬EndTogether Parsed.SameEnd (parse markedLists · (listThenLook marked) {})
        (parse markedLists · (listThenLook target) {}) := by
  intro marked target
  have replaced : Replaces markedLists marked target := .lazy rfl (.refl _ _)
  have root : Replaces markedLists (listThenLook marked) (listThenLook target) :=
    .seq (.cons (.refl _ _)
      (.cons (.positive (.seq (.cons (.refl _ _) (.cons replaced .nil)))) .nil))
  refine ⟨.refl _, root, ⟨_, _, rfl⟩, ⟨_, rfl⟩, fun together => ?_⟩
  cases together.ends 30 30 nofun nofun

end Peg
