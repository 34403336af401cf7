import Mathlib.Order.Bounds.Basic
import Peg.Proofs.Equivalence.Rewriting
import Peg.Proofs.Parse.Reports
import Peg.Proofs.Parse.ShowsAll
import Peg.Proofs.Repetition.Unrolling

/-!
# Skipping to a delimiter

To skip to the first of some delimiters is to look at one place after the other. The same can be
said with lookaheads: match any character as long as no delimiter is next, and then look for a
delimiter. There the places are gone through by a repetition, which stops at the first delimiter or
at the end of the text, and the lookahead behind it tells the two apart.

The proof of either side goes to the same place: the least one from the start on at which a
delimiter is next, or the end of the text if there is none. A delimiter may be empty, and then it is
next at once, even at the end; a delimiter of which the text has only a part is not next.

## Main result

Both come to the same ends. Where they fail, skipping records every delimiter at the end of the
text.
-/
namespace Peg

/-- One of the texts is next at the place. -/
def NextAt (input : Input) (texts : List String) (place : Nat) : Prop :=
  ∃ text ∈ texts, input.continuesWith place text.toList = true

/-- The place is the least one from the start on at which one of the texts is next. -/
def FirstNext (texts : List String) (start stop : Position) : Prop :=
  stop.input = start.input ∧
    IsLeast {place | start.offset ≤ place ∧ NextAt start.input texts place} stop.offset

/-- None of the texts is next anywhere from the start on. -/
def NeverNext (texts : List String) (start : Position) : Prop :=
  ∀ place, start.offset ≤ place → place ≤ start.input.size → ¬NextAt start.input texts place

/-! ### The scan -/

section Scan

variable {input : Input} {texts : List String}

theorem any_continuesWith_iff {place : Nat} :
    (texts.map String.toList).any (input.continuesWith place) = true ↔
      NextAt input texts place := by
  rw [List.any_map, List.any_eq_true]
  rfl

/-- What is found is next, and none of the texts is next before it. -/
theorem Input.find?_some {place count found : Nat}
    (search : input.find? (texts.map String.toList) place count = some found) :
    NextAt input texts found ∧
      ∀ other, place ≤ other → NextAt input texts other → found ≤ other := by
  induction count generalizing place with
  | zero =>
    simp only [find?] at search
    split at search
    next isNext =>
      cases search
      exact ⟨any_continuesWith_iff.mp isNext, fun _ low _ => low⟩
    next => cases search
  | succ count ih =>
    simp only [find?] at search
    split at search
    next isNext =>
      cases search
      exact ⟨any_continuesWith_iff.mp isNext, fun _ low _ => low⟩
    next notNext =>
      obtain ⟨isNext, least⟩ := ih search
      refine ⟨isNext, fun other low also => least other ?_ also⟩
      exact Nat.lt_of_le_of_ne low fun same =>
        notNext (any_continuesWith_iff.mpr (same ▸ also))

/-- If nothing is found, none of the texts is next at a place that was looked at. -/
theorem Input.find?_none {place count other : Nat}
    (search : input.find? (texts.map String.toList) place count = none) (low : place ≤ other)
    (high : other ≤ place + count) : ¬NextAt input texts other := by
  induction count generalizing place with
  | zero =>
    simp only [find?] at search
    split at search
    next => cases search
    next notNext =>
      exact Nat.le_antisymm low high ▸ any_continuesWith_iff.not.mp notNext
  | succ count ih =>
    simp only [find?] at search
    split at search
    next => cases search
    next notNext =>
      rcases Nat.eq_or_lt_of_le low with rfl | later
      · exact any_continuesWith_iff.not.mp notNext
      · exact ih search later (by omega)

theorem Position.skipUntil_some {start stop : Position}
    (found : start.skipUntil texts = some stop) : FirstNext texts start stop := by
  have ordered := skipUntil_precedes found
  unfold skipUntil at found
  split at found
  next place search =>
    cases found
    obtain ⟨isNext, least⟩ := Input.find?_some search
    exact ⟨rfl, ⟨ordered.offset_le, isNext⟩, fun other also => least other also.1 also.2⟩
  next => cases found

theorem Position.skipUntil_none {start : Position} (missed : start.skipUntil texts = none) :
    NeverNext texts start := by
  intro place low high
  unfold skipUntil at missed
  split at missed
  next => cases missed
  next search =>
    refine Input.find?_none search low ?_
    have inside := start.offset_le
    rw [remaining]
    omega

end Scan

/-! ### The lookaheads -/

/-- One of the texts, tried in order. -/
def Expr.oneOf (first : String) (rest : List String) : Expr :=
  .choice (.literal first) (rest.map .literal)

/-- A character where none of the texts is next. -/
def Expr.other (first : String) (rest : List String) : Expr :=
  .seq (.negative (.oneOf first rest)) [.terminal .any]

/-- Any characters as long as none of the texts is next, and then one of the texts, which is only
looked at. -/
def Expr.untilNext (first : String) (rest : List String) : Expr :=
  .seq (.rep (.other first rest) 0 none) [.positive (.oneOf first rest)]

section Lookaheads

open Peg.Action (ShowsAll)

variable {env : Env} {here : Position} {items : List Span}

theorem literal_found {text : String}
    (continues : here.input.continuesWith here.offset text.toList = true) :
    ∃ stop, ComesTo env (.expr (.literal text) here true) items (.matched stop items) := by
  obtain ⟨stop, found⟩ : ∃ stop, here.matchLiteral text = some stop := ⟨_, dif_pos continues⟩
  have ordered := (Position.matchLiteral_advances found).precedes
  refine ⟨stop, .terminal ?_⟩
  rw [Terminal.attempt, found]
  exact Clause.answer_fate ordered (fun span => some (.terminal .literal span text)) _

theorem literal_failed {text : String}
    (differs : ¬here.input.continuesWith here.offset text.toList = true) :
    ComesTo env (.expr (.literal text) here true) items (.failed items) := by
  have missed : here.matchLiteral text = none := dif_neg differs
  refine .terminal ?_
  rw [Terminal.attempt, missed]
  rfl

theorem any_found (inside : here.offset < here.input.size) :
    ComesTo env (.expr (.terminal .any) here true) items
      (.matched ⟨here.input, here.offset + 1, inside⟩ items) := by
  have bound : here.offset < here.input.chars.size := inside
  have found : here.matchAny =
      some (⟨here.input, here.offset + 1, inside⟩, here.input.chars[here.offset]) :=
    (dif_pos bound).trans (if_pos rfl)
  have ordered := (Position.matchChar_advances found).precedes
  refine .terminal ?_
  rw [Terminal.attempt, found]
  exact Clause.answer_fate ordered (fun span => some (.terminal .any span _)) _

theorem any_failed (ends : here.offset = here.input.size) :
    ComesTo env (.expr (.terminal .any) here true) items (.failed items) := by
  have missed : here.matchAny = none := dif_neg (Nat.not_lt.mpr (Nat.le_of_eq ends.symm))
  refine .terminal ?_
  rw [Terminal.attempt, missed]
  rfl

theorem alternatives_found {texts : List String} (isNext : NextAt here.input texts here.offset) :
    ∃ stop, ComesTo env (.alternatives (texts.map .literal) here true) items
      (.matched stop items) := by
  induction texts with
  | nil => obtain ⟨text, among, _⟩ := isNext; cases among
  | cons text rest ih =>
    by_cases continues : here.input.continuesWith here.offset text.toList = true
    · obtain ⟨stop, found⟩ := literal_found continues
      exact ⟨stop, .alternativesFound found rfl⟩
    · obtain ⟨other, among, also⟩ := isNext
      have later : NextAt here.input rest here.offset := by
        rcases List.mem_cons.mp among with rfl | among
        · exact absurd also continues
        · exact ⟨other, among, also⟩
      obtain ⟨stop, found⟩ := ih later
      exact ⟨stop, .alternativesMore (literal_failed continues) found⟩

theorem alternatives_failed {texts : List String} (notNext : ¬NextAt here.input texts here.offset) :
    ComesTo env (.alternatives (texts.map .literal) here true) items (.failed items) := by
  induction texts with
  | nil => exact .alternativesEnd
  | cons text rest ih =>
    refine .alternativesMore (literal_failed fun continues => ?_) (ih fun later => ?_)
    · exact notNext ⟨text, List.mem_cons_self, continues⟩
    · obtain ⟨other, among, also⟩ := later
      exact notNext ⟨other, List.mem_cons_of_mem _ among, also⟩

variable {first : String} {rest : List String}

theorem oneOf_found (isNext : NextAt here.input (first :: rest) here.offset) :
    ∃ stop, ComesTo env (.expr (.oneOf first rest) here true) items (.matched stop items) := by
  obtain ⟨stop, found⟩ := alternatives_found isNext
  exact ⟨stop, .choice found⟩

theorem oneOf_failed (notNext : ¬NextAt here.input (first :: rest) here.offset) :
    ComesTo env (.expr (.oneOf first rest) here true) items (.failed items) :=
  .choice (alternatives_failed notNext)

theorem other_failed (isNext : NextAt here.input (first :: rest) here.offset) :
    ComesTo env (.expr (.other first rest) here true) items (.failed items) := by
  obtain ⟨stop, found⟩ := oneOf_found isNext
  exact .seq (.itemsStop .gapNone (.negative found rfl) rfl)

theorem other_failed_at_end (notNext : ¬NextAt here.input (first :: rest) here.offset)
    (ends : here.offset = here.input.size) :
    ComesTo env (.expr (.other first rest) here true) items (.failed items) :=
  .seq (.itemsMore .gapNone (.negative (oneOf_failed notNext) rfl)
    (.itemsStop .gapNone (any_failed ends) rfl))

theorem other_found (notNext : ¬NextAt here.input (first :: rest) here.offset)
    (inside : here.offset < here.input.size) :
    ComesTo env (.expr (.other first rest) here true) items
      (.matched ⟨here.input, here.offset + 1, inside⟩ items) :=
  .seq (.itemsMore .gapNone (.negative (oneOf_failed notNext) rfl)
    (.itemsMore .gapNone (any_found inside) .itemsEnd))

/-- If none of the texts is next before a place, the repetition goes on until that place. -/
theorem others_reach (unlimited : env.repeatLimit = none) {stop : Position}
    (ordered : here.Precedes stop)
    (before : ∀ place, here.offset ≤ place → place < stop.offset →
      ¬NextAt here.input (first :: rest) place)
    (fails : ComesTo env (.expr (.other first rest) stop true) items (.failed items))
    (count : Nat) :
    ComesTo env (.loop (.other first rest) 0 none true count here) items (.matched stop items) := by
  have gap {here : Position} {count : Nat} :
      ComesTo env (.gap (count == 0 || true) here) items (.matched here items) := by
    rw [Bool.or_true]
    exact .gapNone
  -- No count of matches ends the repetition, so that only the distance to the place matters.
  induction apart : stop.offset - here.offset generalizing here count with
  | zero =>
    have still : here = stop := Position.eq_of_offset ordered.input_eq.symm
      (Nat.le_antisymm ordered.offset_le (Nat.le_of_sub_eq_zero apart))
    subst still
    exact .loopEnd rfl gap fails rfl
  | succ left ih =>
    have further : here.offset < stop.offset := by omega
    have inside : here.offset < here.input.size := by
      rw [← ordered.input_eq]
      exact Nat.lt_of_lt_of_le further stop.offset_le
    have notNext := before here.offset (Nat.le_refl _) further
    refine .loopMore rfl gap (other_found notNext inside)
      (Clause.beyondLimit_of_unlimited unlimited _) ?_
    have onward : Position.Precedes ⟨here.input, here.offset + 1, inside⟩ stop :=
      ⟨ordered.input_eq, further⟩
    have nearer : stop.offset - (here.offset + 1) = left := by omega
    exact ih onward (fun place low => before place (Nat.le_of_succ_le low)) _ nearer

/-- The lookahead behind the repetition decides. -/
theorem untilNext_found (unlimited : env.repeatLimit = none) {stop : Position}
    (least : FirstNext (first :: rest) here stop) :
    ComesTo env (.expr (.untilNext first rest) here true) items (.matched stop items) := by
  obtain ⟨input, ⟨low, isNext⟩, before⟩ := least
  have there : NextAt stop.input (first :: rest) stop.offset := input ▸ isNext
  have between (place : Nat) (start : here.offset ≤ place) (below : place < stop.offset) :
      ¬NextAt here.input (first :: rest) place := fun also =>
    absurd (before ⟨start, also⟩) (Nat.not_le.mpr below)
  have others : ComesTo env (.expr (.rep (.other first rest) 0 none) here true) items
      (.matched stop items) :=
    .rep (others_reach unlimited ⟨input, low⟩ between (other_failed there) 0)
  obtain ⟨beyond, found⟩ : ∃ beyond, ComesTo env (.expr (.oneOf first rest) stop true) items
      (.matched beyond items) := oneOf_found there
  exact .seq (.itemsMore .gapNone others (.itemsMore .gapNone (.positive found rfl) .itemsEnd))

theorem untilNext_failed (unlimited : env.repeatLimit = none)
    (never : NeverNext (first :: rest) here) :
    ComesTo env (.expr (.untilNext first rest) here true) items (.failed items) := by
  -- The repetition runs on to the end of the text, where no character is left.
  let stop : Position := ⟨here.input, here.input.size, Nat.le_refl _⟩
  have notNext : ¬NextAt stop.input (first :: rest) stop.offset :=
    never _ here.offset_le (Nat.le_refl _)
  have ordered : here.Precedes stop := ⟨rfl, here.offset_le⟩
  have others : ComesTo env (.expr (.rep (.other first rest) 0 none) here true) items
      (.matched stop items) :=
    .rep (others_reach unlimited ordered
      (fun place low below => never place low (Nat.le_of_lt below))
      (other_failed_at_end notNext rfl) 0)
  exact .seq (.itemsMore .gapNone others
    (.itemsStop .gapNone (.positive (oneOf_failed notNext) rfl) rfl))

variable (env first rest here)

/-- The delimiters are shown as they are. -/
theorem oneOf_text (forced : List LazyCell) :
    (Expr.oneOf first rest).text env.definitions forced ≠ none := by
  refine Expr.text_ne_none_of_shownCells (Expr.shownCellsOf_eq_nil fun part among => ?_)
  obtain ⟨text, -, rfl⟩ := List.mem_map.mp among
  rfl

theorem oneOf_shows (fuel : Nat) : ShowsAll (eval env fuel (.oneOf first rest) here true) := by
  cases fuel with
  | zero => exact .exhausted
  | succ fuel =>
    refine ShowsAll.composite.alternatives 0 fun part among => ?_
    rw [← List.map_cons] at among
    obtain ⟨text, -, rfl⟩ := List.mem_map.mp among
    cases fuel with
    | zero => exact .exhausted
    | succ fuel => exact ShowsAll.composite.attempt (.literal text) here

theorem other_shows (fuel : Nat) : ShowsAll (eval env fuel (.other first rest) here true) := by
  cases fuel with
  | zero => exact .exhausted
  | succ fuel =>
    refine .items here (fun part among there => ?_) here #[]
    cases fuel with
    | zero => exact .exhausted
    | succ fuel =>
      rcases List.mem_pair.mp among with rfl | rfl
      · exact .negative (oneOf_text env first rest) (oneOf_shows env there first rest fuel)
      · exact ShowsAll.composite.attempt .any there

/-- Neither lookahead can be without a text. -/
theorem untilNext_shows (moves : Nat) :
    ShowsAll (run env moves (.untilNext first rest) here true) := by
  refine .of_eval (fun fuel => ?_) moves
  cases fuel with
  | zero => exact .exhausted
  | succ fuel =>
    refine .items here (fun part among there => ?_) here #[]
    cases fuel with
    | zero => exact .exhausted
    | succ fuel =>
      rcases List.mem_pair.mp among with rfl | rfl
      · exact .repetition (fun here => other_shows env here first rest fuel) 0 none there fuel
          there #[]
      · exact .positive (oneOf_text env first rest) (oneOf_shows env there first rest fuel)

end Lookaheads

/-! ### What is recorded -/

namespace Tracker

/-- The tracker after some texts were missed at an offset, one after the other. -/
def missing (tracker : Tracker) (offset : Int) (texts : List String) : Tracker :=
  texts.foldl (fun tracker text => tracker.recordFailure (.literal text false) offset) tracker

/-- The offset is the furthest one, and each of the texts is held as missing there, inside the
scopes that were open before. -/
structure HoldsMissing (before : Tracker) (offset : Int) (texts : List String) (after : Tracker) :
    Prop where
  furthest : after.furthest = offset
  records : ∀ text ∈ texts, before.recordOf (.literal text false) none ∈ after.records

section Missing

variable {tracker : Tracker} {offset : Int} (unmuted : tracker.muteDepth = 0)

theorem recordOf_recordFailure (tracker : Tracker) (failure later : Failure) (offset : Int)
    (kind : Option Lookahead) :
    (tracker.recordFailure failure offset).recordOf later kind = tracker.recordOf later kind := by
  have scopes := tracker.sameScopes_recordFailure failure offset none
  rw [recordOf, recordOf, Tracker.kind, Tracker.kind, scopes.rules, scopes.kinds]

include unmuted

/-- Where no recorded failure is beyond the offset, it is the furthest one from then on. -/
theorem recordFailure_level (reached : tracker.furthest ≤ offset) (failure : Failure) :
    (tracker.recordFailure failure offset).muteDepth = 0 ∧
      (tracker.recordFailure failure offset).furthest = offset := by
  constructor
  · rw [← (tracker.sameScopes_recordFailure failure offset none).muteDepth, unmuted]
  · rw [recordFailure_furthest tracker failure none unmuted, max_eq_right reached]

/-- One more text is held in front of others, if what is recorded of it stays. -/
theorem HoldsMissing.cons (reached : tracker.furthest ≤ offset) {text : String}
    {rest : List String} {after : Tracker}
    (others : (tracker.recordFailure (.literal text false) offset).HoldsMissing offset rest after)
    (kept : (tracker.recordFailure (.literal text false) offset).records ⊆ after.records) :
    tracker.HoldsMissing offset (text :: rest) after := by
  refine ⟨others.furthest, List.forall_mem_cons.mpr ⟨?_, fun other among => ?_⟩⟩
  · exact kept (tracker.mem_recordFailure _ none unmuted reached)
  · have told := others.records other among
    rwa [recordOf_recordFailure] at told

/-- At the furthest offset, what is missed is recorded and what was recorded stays. -/
theorem missing_of_level (level : tracker.furthest = offset) (texts : List String) :
    tracker.HoldsMissing offset texts (tracker.missing offset texts) ∧
      tracker.records ⊆ (tracker.missing offset texts).records := by
  induction texts generalizing tracker with
  | nil => exact ⟨⟨level, List.forall_mem_nil _⟩, List.Subset.refl _⟩
  | cons text rest ih =>
    obtain ⟨quiet, again⟩ := recordFailure_level unmuted level.le (.literal text false)
    obtain ⟨others, kept⟩ := ih quiet again
    have held := tracker.records_subset_recordFailure (.literal text false) none unmuted
    rw [level] at held
    exact ⟨.cons unmuted level.le others kept, fun record member => kept (held member)⟩

/-- If no recorded failure is beyond an offset, what is missed there is held. -/
theorem missing_of_reached (reached : tracker.furthest ≤ offset) (first : String)
    (rest : List String) :
    tracker.HoldsMissing offset (first :: rest) (tracker.missing offset (first :: rest)) := by
  -- The first text may drive out what was recorded before, the others are missed at its level.
  obtain ⟨quiet, level⟩ := recordFailure_level unmuted reached (.literal first false)
  obtain ⟨others, kept⟩ := missing_of_level quiet level rest
  exact .cons unmuted reached others kept

end Missing

end Tracker

theorem Terminal.missAll_done (offset : Nat) (texts : List String) (state : State) :
    missAll offset texts state =
      .done none { state with tracker := state.tracker.missing offset texts } := by
  induction texts generalizing state with
  | nil => rfl
  | cons text rest ih =>
    exact ih { state with tracker := state.tracker.recordFailure (.literal text false) offset }

/-! ### Main result -/

section Skip

variable {env : Env} {first : String} {rest : List String} {start : Position} {atomic : Bool}

theorem skipUntil_found {stop : Position} (found : start.skipUntil (first :: rest) = some stop)
    (before : State) : ∃ item after, Finishes env (.terminal (.skipUntil first rest)) start atomic
      before (some item) after ∧ item.stop = stop := by
  obtain ⟨span, answered⟩ := Clause.answer_done (Position.skipUntil_precedes found)
    (fun span => some (.terminal .skip span span.text)) before
  refine ⟨⟨stop, some (.terminal .skip span span.text)⟩, before,
    finishes_iff_eval.mpr ⟨1, ?_⟩, rfl⟩
  rw [eval, Terminal.attempt, found]
  exact answered

theorem skipUntil_missed (missed : start.skipUntil (first :: rest) = none) (before : State) :
    Finishes env (.terminal (.skipUntil first rest)) start atomic before none { before with
      tracker := before.tracker.missing start.input.size (first :: rest) } := by
  refine finishes_iff_eval.mpr ⟨1, ?_⟩
  rw [eval, Terminal.attempt, missed]
  exact Terminal.missAll_done start.input.size (first :: rest) before

end Skip

/-- Let there be no limit of repetitions. From every place and in every state, skipping to one of
some delimiters ends where the lookaheads do that stand for it, matched atomically: if a delimiter
is next anywhere from there on, both end at the least such place, and if none is, both fail. Unless
the tracker is muted, the furthest offset is then the end of the text, and a record of each
delimiter is held there. For this the tracker must not hold failures beyond the end of the text; it
never does, as matching adds none. -/
theorem skip_agrees_with_lookahead (env : Env) (unlimited : env.repeatLimit = none)
    (first : String) (rest : List String) (start : Position) (atomic : Bool) (before : State) :
    ((∃ stop, FirstNext (first :: rest) start stop ∧
          (∃ found after, Finishes env (.terminal (.skipUntil first rest)) start atomic before
            (some found) after ∧ found.stop = stop) ∧
          ∃ found after, Finishes env (.untilNext first rest) start true before (some found)
            after ∧ found.stop = stop) ∨
        NeverNext (first :: rest) start ∧
          (∃ after, Finishes env (.terminal (.skipUntil first rest)) start atomic before none
            after ∧ (before.tracker.muteDepth = 0 → before.tracker.furthest ≤ start.input.size →
              before.tracker.HoldsMissing start.input.size (first :: rest) after.tracker)) ∧
          ∃ after, Finishes env (.untilNext first rest) start true before none after) ∧
      ∀ {scopes : List Scope} (history : History scopes) {expr flag state after},
        state.tracker = history.tracker → Leaves env expr start flag state after →
          state.tracker.furthest ≤ start.input.size →
            after.tracker.furthest ≤ start.input.size := by
  refine ⟨?_, fun history _ _ _ _ begun leaves within => leaves.furthest_le history begun within⟩
  cases search : start.skipUntil (first :: rest) with
  | some stop =>
    have least := Position.skipUntil_some search
    exact .inl ⟨stop, least, skipUntil_found search before,
      (untilNext_found unlimited least).finishes (untilNext_shows env start first rest · before)⟩
  | none =>
    have never := Position.skipUntil_none search
    refine .inr ⟨never, ⟨_, skipUntil_missed search before, fun unmuted reached => ?_⟩,
      (untilNext_failed unlimited never).finishes_none
        (untilNext_shows env start first rest · before)⟩
    exact Tracker.missing_of_reached unmuted reached first rest

/-- The end of a comment is found behind a letter. Where its last character is missing, both
delimiters are recorded at the end of the text. -/
theorem comment_end_skipped :
    let whole : Env := { input := ⟨0, #['a', '*', '/']⟩ }
    let cut : Env := { input := ⟨0, #['a', '*']⟩ }
    (∃ stop, FirstNext ["*/", "--"] (.start whole.input) stop ∧ stop.offset = 1 ∧
        ∃ found after, Finishes whole (.untilNext "*/" ["--"]) (.start whole.input) true {}
          (some found) after ∧ found.stop = stop) ∧
      ∃ after, Finishes cut (.terminal (.skipUntil "*/" ["--"])) (.start cut.input) true {} none
        after ∧ Tracker.HoldsMissing {} 2 ["*/", "--"] after.tracker := by
  intro whole cut
  constructor
  · rcases (skip_agrees_with_lookahead whole rfl "*/" ["--"] (.start whole.input) true {}).1 with
      ⟨stop, least, ⟨found, after, skips, rfl⟩, looks⟩ | ⟨never, _⟩
    · obtain ⟨same, _⟩ := skips.unique ⟨10, rfl⟩
      have ended := congrArg Match.stop (Option.some.inj same)
      exact ⟨found.stop, least, congrArg Position.offset ended, looks⟩
    · have isNext : NextAt whole.input ["*/", "--"] 1 := ⟨"*/", List.mem_cons_self, by decide⟩
      exact absurd isNext (never 1 (by decide) (by decide))
  · rcases (skip_agrees_with_lookahead cut rfl "*/" ["--"] (.start cut.input) true {}).1 with
      ⟨stop, _, ⟨found, after, skips, _⟩, _⟩ | ⟨_, ⟨after, skips, records⟩, _⟩
    · obtain ⟨same, _⟩ := skips.unique ⟨10, rfl⟩
      cases same
    · exact ⟨after, skips, records rfl (by decide)⟩

end Peg
