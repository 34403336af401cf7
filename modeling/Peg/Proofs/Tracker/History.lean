import Peg.Proofs.Tracker.Summary

/-!
# Histories of a tracker

A history of a tracker is what was done to it since it was made: failures were recorded, and scopes
were opened and closed, the innermost first. The scopes that are open at its end are part of its
type, so that a history closes no scope that it has not opened. What a history records is told from
the list of its open scopes alone, and not from the counters and lists that the tracker keeps.

## Main result

After any history a tracker holds the furthest of its recordings, and two trackers merged hold those
of both histories, the one after the other.
-/
namespace Peg

/-! ### Scopes -/

namespace Scope

/-- The rule that is being matched in a scope. -/
def rule? : Scope → Option String
  | rule name => some name
  | _ => none

/-- The lookahead that is being tried in a scope. -/
def lookahead? : Scope → Option Lookahead
  | lookahead kind => some kind
  | _ => none

/-- Whether nothing is recorded in a scope. -/
def mutes : Scope → Bool
  | lookahead .negative | muted => true
  | _ => false

/-- The rules around a place in the given scopes, outermost first. -/
def ruleChain (scopes : List Scope) : List String := (scopes.filterMap rule?).reverse

/-- The innermost lookahead of the given scopes. -/
def innermostLookahead (scopes : List Scope) : Option Lookahead := scopes.findSome? lookahead?

end Scope

/-! ### Histories -/

/-- What may be recorded in a tracker. -/
inductive Notice where
  /-- A failure at an offset, with a kind if it is not to be that of the innermost lookahead. -/
  | failure (failure : Failure) (offset : Int) (kind : Option Lookahead)
  /-- The stack is empty. -/
  | emptyStack (offset : Int)
  /-- The stack has no such slice. -/
  | outOfBounds (start : Int) (stop : Option Int) (offset : Int)
  /-- A repetition met the limit. -/
  | repeatLimit (limit : Int) (offset : Int)
  /-- A lookahead failed. -/
  | predicate (positive : Bool) (label : String) (offset : Int)

namespace Notice

/-- What failed. -/
def reason : Notice → Failure
  | .failure cause _ _ => cause
  | .emptyStack _ => .emptyStack
  | .outOfBounds start stop _ => .sliceOutOfBounds start stop
  | .repeatLimit limit _ => .repeatLimit limit
  | .predicate positive label _ => .predicate positive label

/-- Where it failed. -/
def offset : Notice → Int
  | .failure _ offset _ => offset
  | .emptyStack offset => offset
  | .outOfBounds _ _ offset => offset
  | .repeatLimit _ offset => offset
  | .predicate _ _ offset => offset

/-- The kind that is given with it. -/
def kind? : Notice → Option Lookahead
  | .failure _ _ kind => kind
  | .predicate true _ _ => some .positive
  | .predicate false _ _ => some .negative
  | _ => none

/-- Records it in a tracker. -/
def note (tracker : Tracker) : Notice → Tracker
  | .failure cause offset kind => tracker.recordFailure cause offset kind
  | .emptyStack offset => tracker.recordEmptyStack offset
  | .outOfBounds start stop offset => tracker.recordOutOfBounds start stop offset
  | .repeatLimit limit offset => tracker.recordRepeatLimit limit offset
  | .predicate positive label offset => tracker.recordPredicate positive label offset

/-- The recording that is made of it inside the given scopes. -/
def recording (scopes : List Scope) (notice : Notice) : Recording :=
  ⟨notice.offset, notice.reason, Scope.ruleChain scopes,
    notice.kind? <|> Scope.innermostLookahead scopes⟩

theorem note_eq (tracker : Tracker) (notice : Notice) :
    notice.note tracker = tracker.recordFailure notice.reason notice.offset notice.kind? := by
  cases notice with
  | predicate positive label offset => cases positive <;> rfl
  | failure | emptyStack | outOfBounds | repeatLimit => rfl

end Notice

/-- What was done to a tracker, and the scopes that are open after it, innermost first. -/
inductive History : List Scope → Type where
  /-- The tracker was made. -/
  | start : History []
  /-- Something was recorded. -/
  | note {scopes : List Scope} (earlier : History scopes) (notice : Notice) : History scopes
  /-- A scope was opened. -/
  | enter {scopes : List Scope} (earlier : History scopes) (scope : Scope) :
      History (scope :: scopes)
  /-- The innermost scope was closed. -/
  | leave {scopes : List Scope} (scope : Scope) (earlier : History (scope :: scopes)) :
      History scopes

namespace History

variable {scopes others : List Scope}

/-- The tracker to which it was done. -/
def tracker {scopes : List Scope} : History scopes → Tracker
  | start => {}
  | note earlier notice => notice.note earlier.tracker
  | enter earlier scope => earlier.tracker.enter scope
  | leave scope earlier => earlier.tracker.leave scope

/-- What was recorded while nothing muted the tracker, in the order of the recording. -/
def recordings {scopes : List Scope} : History scopes → List Recording
  | start => []
  | note earlier notice =>
    if scopes.any Scope.mutes then earlier.recordings
    else earlier.recordings ++ [notice.recording scopes]
  | enter earlier _ => earlier.recordings
  | leave _ earlier => earlier.recordings

/-- A history at whose end no scope is open goes on with another one. -/
def followedBy (first : History []) {scopes : List Scope} : History scopes → History scopes
  | start => first
  | note earlier notice => (first.followedBy earlier).note notice
  | enter earlier scope => (first.followedBy earlier).enter scope
  | leave scope earlier => leave scope (first.followedBy earlier)

theorem recordings_followedBy (first : History []) (second : History scopes) :
    (first.followedBy second).recordings = first.recordings ++ second.recordings := by
  induction second with
  | start => exact (List.append_nil _).symm
  | note earlier notice ih =>
    simp only [followedBy, recordings, ih]
    split
    · rfl
    · rw [List.append_assoc]
  | enter earlier scope ih => exact ih
  | leave scope earlier ih => exact ih

/-! ### Open scopes -/

/-- What a tracker keeps of its open scopes: the names of the rules, the kinds of the lookaheads and
the number of the scopes that mute it. -/
structure Holds (tracker : Tracker) (scopes : List Scope) : Prop where
  rules : tracker.rules = scopes.filterMap Scope.rule?
  kinds : tracker.kinds = scopes.filterMap Scope.lookahead?
  muteDepth : tracker.muteDepth = (scopes.filter Scope.mutes).length

namespace Holds

variable {tracker : Tracker}

theorem congr {other : Tracker} (holds : Holds tracker scopes) (same : tracker.SameScopes other) :
    Holds other scopes :=
  ⟨same.rules.symm.trans holds.rules, same.kinds.symm.trans holds.kinds,
    same.muteDepth.symm.trans holds.muteDepth⟩

theorem enter (holds : Holds tracker scopes) (scope : Scope) :
    Holds (tracker.enter scope) (scope :: scopes) := by
  obtain ⟨rules, kinds, muteDepth⟩ := holds
  cases scope with
  | rule name => exact ⟨congrArg (name :: ·) rules, kinds, muteDepth⟩
  | lookahead kind =>
    cases kind with
    | positive => exact ⟨rules, congrArg (Lookahead.positive :: ·) kinds, muteDepth⟩
    | negative =>
      exact ⟨rules, congrArg (Lookahead.negative :: ·) kinds, congrArg (· + 1) muteDepth⟩
  | muted => exact ⟨rules, kinds, congrArg (· + 1) muteDepth⟩

theorem leave {scope : Scope} (holds : Holds tracker (scope :: scopes)) :
    Holds (tracker.leave scope) scopes := by
  obtain ⟨rules, kinds, muteDepth⟩ := holds
  cases scope with
  | rule name => exact ⟨congrArg List.tail rules, kinds, muteDepth⟩
  | lookahead kind =>
    cases kind with
    | positive => exact ⟨rules, congrArg List.tail kinds, muteDepth⟩
    | negative => exact ⟨rules, congrArg List.tail kinds, congrArg (· - 1) muteDepth⟩
  | muted => exact ⟨rules, kinds, congrArg (· - 1) muteDepth⟩

theorem muted_iff (holds : Holds tracker scopes) :
    0 < tracker.muteDepth ↔ scopes.any Scope.mutes = true := by
  rw [holds.muteDepth, List.length_pos_iff_exists_mem, List.any_eq_true]
  simp only [List.mem_filter]

theorem recording_eq (holds : Holds tracker scopes) (notice : Notice) :
    notice.recording scopes = ⟨notice.offset, tracker.recordOf notice.reason notice.kind?⟩ := by
  have innermost : Scope.innermostLookahead scopes = tracker.kind := by
    rw [Scope.innermostLookahead, Tracker.kind, holds.kinds, List.head?_filterMap]
  simp only [Notice.recording, Tracker.recordOf, Scope.ruleChain, holds.rules, innermost]

end Holds

theorem holds (history : History scopes) : Holds history.tracker scopes := by
  induction history with
  | start => exact ⟨rfl, rfl, rfl⟩
  | note earlier notice ih =>
    simp only [tracker, Notice.note_eq]
    exact ih.congr (Tracker.sameScopes_recordFailure _ _ _ _)
  | enter earlier scope ih => exact ih.enter scope
  | leave scope earlier ih => exact ih.leave

/-! ### Main result -/

theorem summarizes (history : History scopes) :
    Tracker.Summarizes history.tracker history.recordings := by
  induction history with
  | start => exact .empty
  | @note scopes earlier notice ih =>
    have held := earlier.holds
    simp only [tracker, recordings, Notice.note_eq]
    by_cases muted : scopes.any Scope.mutes = true
    · rw [if_pos muted, Tracker.recordFailure_of_muted _ _ _ (held.muted_iff.mpr muted)]
      exact ih
    · have unmuted : earlier.tracker.muteDepth = 0 :=
        Nat.eq_zero_of_not_pos fun positive => muted (held.muted_iff.mp positive)
      rw [if_neg muted, held.recording_eq]
      exact ih.recordFailure unmuted _ _ _
  | enter earlier scope ih => exact ih.congr (earlier.tracker.sameFailures_enter scope)
  | leave scope earlier ih => exact ih.congr (earlier.tracker.sameFailures_leave scope)

/-- No tracker falls behind where it starts. -/
theorem neg_one_le_furthest (history : History scopes) : -1 ≤ history.tracker.furthest := by
  rw [history.summarizes.furthest_eq]
  exact Recording.neg_one_le_furthestOffset history.recordings

theorem merge_followedBy (first : History []) (second : History scopes) :
    (first.tracker.merge second.tracker).SameFailures (first.followedBy second).tracker := by
  have merged := first.summarizes.merge second.summarizes
  have followed := (first.followedBy second).summarizes
  rw [recordings_followedBy] at followed
  have furthest := merged.furthest_eq.trans followed.furthest_eq.symm
  refine ⟨furthest, ?_⟩
  rw [merged.records_eq, followed.records_eq, furthest]

end History

/-- After any history a tracker holds the furthest offset of its recordings, or `-1` if there are
none that far, and the different records that were made there, in the order of their first
recording. Of two trackers merged, the one holds what the recordings of both come to, its own before
those of the other; if it has no scope open, that is what it would hold if the history of the other
had gone on from its own. -/
theorem tracker_summarizes_history :
    (∀ {scopes : List Scope} (history : History scopes),
        history.tracker.Summarizes history.recordings) ∧
      (∀ {scopes others : List Scope} (first : History scopes) (second : History others),
        (first.tracker.merge second.tracker).Summarizes
          (first.recordings ++ second.recordings)) ∧
      ∀ {scopes : List Scope} (first : History []) (second : History scopes),
        (first.tracker.merge second.tracker).SameFailures
          (first.followedBy second).tracker := by
  refine ⟨?_, ?_, ?_⟩
  · intro scopes history
    exact history.summarizes
  · intro scopes others first second
    exact first.summarizes.merge second.summarizes
  · intro scopes first second
    exact first.merge_followedBy second

end Peg
