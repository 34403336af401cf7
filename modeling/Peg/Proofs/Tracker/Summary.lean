import Mathlib.Data.List.Induction
import Mathlib.Data.List.Nodup
import Mathlib.Order.Lattice
import Peg.Proofs.Tracker.Parts

/-!
# Summaries of recordings

What a tracker holds is a summary of the recordings that were made in it: the furthest offset of any
of them, and the different records that were made there, in the order in which they first came. A
further recording and the merging of two trackers both extend the list of recordings that is
summarized.

## Main results

`Tracker.Summarizes.recordFailure` and `Tracker.Summarizes.merge`, from facts about lists without
repetition and about the largest offset of a list.
-/
namespace Peg

/-! ### Lists without repetition -/

section Distinct

variable {α : Type} [DecidableEq α]

theorem mem_insertNew {list : List α} {element other : α} :
    other ∈ insertNew list element ↔ other ∈ list ∨ other = element := by
  unfold insertNew
  split
  next present =>
    constructor
    · exact Or.inl
    · rintro (old | rfl)
      · exact old
      · exact present
  next absent => simp only [List.mem_append, List.mem_singleton]

theorem insertNew_of_mem {list : List α} {element : α} (present : element ∈ list) :
    insertNew list element = list := if_pos present

theorem nodup_insertNew {list : List α} (nodup : list.Nodup) (element : α) :
    (insertNew list element).Nodup := by
  unfold insertNew
  split
  next => exact nodup
  next absent =>
    exact List.nodup_append.mpr ⟨nodup, List.nodup_singleton element, fun other member last found
      same => absent (List.mem_singleton.mp found ▸ same ▸ member)⟩

theorem mem_foldl_insertNew {elements list : List α} {other : α} :
    other ∈ elements.foldl insertNew list ↔ other ∈ list ∨ other ∈ elements := by
  induction elements generalizing list with
  | nil => simp only [List.foldl_nil, List.not_mem_nil, or_false]
  | cons element rest ih =>
    rw [List.foldl_cons, ih, mem_insertNew, List.mem_cons, or_assoc]

/-- It makes no difference whether an element is new to the list that is inserted or to all. -/
theorem foldl_insertNew_insertNew (elements list : List α) (element : α) :
    (insertNew elements element).foldl insertNew list =
      insertNew (elements.foldl insertNew list) element := by
  by_cases present : element ∈ elements
  · have inserted : element ∈ elements.foldl insertNew list :=
      mem_foldl_insertNew.mpr (Or.inr present)
    rw [insertNew_of_mem present, insertNew_of_mem inserted]
  · have appended : insertNew elements element = elements ++ [element] := if_neg present
    rw [appended, List.foldl_append, List.foldl_cons, List.foldl_nil]

theorem eraseDups_concat (elements : List α) (element : α) :
    (elements ++ [element]).eraseDups = insertNew elements.eraseDups element := by
  rw [List.eraseDups_append]
  by_cases present : element ∈ elements
  · rw [insertNew_of_mem (List.mem_eraseDups.mpr present)]
    simp [List.removeAll, present]
  · have absent : element ∉ elements.eraseDups := fun member =>
      present (List.mem_eraseDups.mp member)
    simp [List.removeAll, present, insertNew, absent, List.eraseDups_cons]

theorem mem_distinct {list : List α} {element : α} : element ∈ distinct list ↔ element ∈ list := by
  simp [distinct, mem_foldl_insertNew]

theorem foldl_insertNew_eraseDups (earlier later : List α) :
    later.eraseDups.foldl insertNew earlier.eraseDups = (earlier ++ later).eraseDups := by
  induction later using List.reverseRecOn with
  | nil => simp only [List.eraseDups_nil, List.foldl_nil, List.append_nil]
  | append_singleton later element ih =>
    rw [eraseDups_concat, foldl_insertNew_insertNew, ih, ← List.append_assoc, eraseDups_concat]

end Distinct

/-! ### Recordings -/

/-- A failure that was recorded at an offset. -/
structure Recording where
  /-- Where the failure happened. -/
  offset : Int
  /-- What was recorded there. -/
  record : Record

namespace Recording

/-- The furthest offset of some recordings, or `-1` if none of them is further. -/
def furthestOffset (recordings : List Recording) : Int := (recordings.map offset).foldl max (-1)

/-- The different records at an offset, in the order of their first recording. -/
def recordsAt (recordings : List Recording) (offset : Int) : List Record :=
  ((recordings.filter (·.offset = offset)).map record).eraseDups

theorem foldl_max_of_le (offsets : List Int) {start : Int} (le : -1 ≤ start) :
    offsets.foldl max start = max start (offsets.foldl max (-1)) := by
  rw [List.foldl_max, List.foldl_max]
  cases offsets.max? with
  | none => simp only [Option.getD_none]; omega
  | some largest => simp only [Option.getD_some]; omega

theorem neg_one_le_furthestOffset (recordings : List Recording) :
    -1 ≤ furthestOffset recordings := by
  rw [furthestOffset, List.foldl_max]
  exact le_max_left _ _

theorem furthestOffset_singleton (recording : Recording) :
    furthestOffset [recording] = max (-1) recording.offset := rfl

theorem furthestOffset_append (earlier later : List Recording) :
    furthestOffset (earlier ++ later) = max (furthestOffset earlier) (furthestOffset later) := by
  rw [furthestOffset, List.map_append, List.foldl_append]
  exact foldl_max_of_le _ (neg_one_le_furthestOffset earlier)

theorem furthestOffset_concat (recordings : List Recording) (recording : Recording) :
    furthestOffset (recordings ++ [recording]) =
      max (furthestOffset recordings) recording.offset := by
  have least := neg_one_le_furthestOffset recordings
  rw [furthestOffset_append, furthestOffset_singleton]
  omega

theorem offset_le_furthestOffset {recordings : List Recording} {recording : Recording}
    (member : recording ∈ recordings) : recording.offset ≤ furthestOffset recordings := by
  obtain ⟨before, after, rfl⟩ := List.append_of_mem member
  rw [List.append_cons, furthestOffset_append, furthestOffset_concat]
  omega

/-- Unless nothing was recorded, something was at the furthest offset. -/
theorem exists_furthest {recordings : List Recording} (some : -1 < furthestOffset recordings) :
    ∃ recording ∈ recordings, recording.offset = furthestOffset recordings := by
  rw [furthestOffset, List.foldl_max] at some ⊢
  cases largest : (recordings.map offset).max? with
  | none =>
    rw [largest] at some
    simp at some
  | some last =>
    rw [largest] at some
    have member := List.max?_mem largest
    rw [List.mem_map] at member
    obtain ⟨recording, among, rfl⟩ := member
    simp only [Option.getD_some] at some ⊢
    exact ⟨recording, among, by omega⟩

theorem mem_recordsAt {recordings : List Recording} {offset : Int} {record : Record} :
    record ∈ recordsAt recordings offset ↔
      ∃ recording ∈ recordings, recording.offset = offset ∧ recording.record = record := by
  simp [recordsAt, and_assoc]

theorem recordsAt_append (earlier later : List Recording) (offset : Int) :
    recordsAt (earlier ++ later) offset =
      (recordsAt later offset).foldl insertNew (recordsAt earlier offset) := by
  simp only [recordsAt, List.filter_append, List.map_append, foldl_insertNew_eraseDups]

/-- Nothing was recorded beyond the furthest offset. -/
theorem filter_of_beyond {recordings : List Recording} {offset : Int}
    (beyond : furthestOffset recordings < offset) : recordings.filter (·.offset = offset) = [] := by
  apply List.filter_eq_nil_iff.mpr
  intro recording member
  have within := offset_le_furthestOffset member
  simp only [decide_eq_true_eq]
  omega

theorem recordsAt_append_of_beyond_left {earlier later : List Recording} {offset : Int}
    (beyond : furthestOffset earlier < offset) :
    recordsAt (earlier ++ later) offset = recordsAt later offset := by
  rw [recordsAt, recordsAt, List.filter_append, filter_of_beyond beyond, List.nil_append]

theorem recordsAt_append_of_beyond_right {earlier later : List Recording} {offset : Int}
    (beyond : furthestOffset later < offset) :
    recordsAt (earlier ++ later) offset = recordsAt earlier offset := by
  rw [recordsAt, recordsAt, List.filter_append, filter_of_beyond beyond, List.append_nil]

theorem recordsAt_singleton (recording : Recording) :
    recordsAt [recording] recording.offset = [recording.record] := by
  simp [recordsAt, List.eraseDups_cons]

theorem recordsAt_singleton_of_ne {recording : Recording} {offset : Int}
    (elsewhere : recording.offset ≠ offset) : recordsAt [recording] offset = [] := by
  simp [recordsAt, elsewhere]

end Recording

/-! ### Trackers -/

namespace Tracker

open Recording

section Cases

variable (tracker : Tracker) {other : Tracker} (failure : Failure) (kind : Option Lookahead)
  {offset : Int}

theorem recordFailure_of_muted (muted : 0 < tracker.muteDepth) :
    tracker.recordFailure failure offset kind = tracker := if_pos muted

theorem recordFailure_of_near (near : offset < tracker.furthest) :
    tracker.recordFailure failure offset kind = tracker := by
  rw [recordFailure, if_pos near, ite_self]

theorem recordFailure_of_level (unmuted : tracker.muteDepth = 0) :
    tracker.recordFailure failure tracker.furthest kind =
      { tracker with records := insertNew tracker.records (tracker.recordOf failure kind) } := by
  rw [recordFailure, if_neg (by omega), if_neg (lt_irrefl _), if_neg (lt_irrefl _)]

theorem recordFailure_of_beyond (unmuted : tracker.muteDepth = 0)
    (beyond : tracker.furthest < offset) : tracker.recordFailure failure offset kind =
      { tracker with furthest := offset, records := [tracker.recordOf failure kind] } := by
  rw [recordFailure, if_neg (by omega), if_neg (by omega), if_pos beyond]

theorem recordFailure_furthest (unmuted : tracker.muteDepth = 0) (offset : Int) :
    (tracker.recordFailure failure offset kind).furthest = max tracker.furthest offset := by
  rcases lt_trichotomy offset tracker.furthest with near | rfl | beyond
  · rw [recordFailure_of_near tracker failure kind near, max_eq_left near.le]
  · rw [recordFailure_of_level tracker failure kind unmuted, max_self]
  · rw [recordFailure_of_beyond tracker failure kind unmuted beyond, max_eq_right beyond.le]

/-- A failure that no recorded one is beyond is recorded. -/
theorem mem_recordFailure (unmuted : tracker.muteDepth = 0) (reached : tracker.furthest ≤ offset) :
    tracker.recordOf failure kind ∈ (tracker.recordFailure failure offset kind).records := by
  rcases reached.eq_or_lt with rfl | beyond
  · rw [recordFailure_of_level tracker failure kind unmuted]
    exact mem_insertNew.mpr (.inr rfl)
  · rw [recordFailure_of_beyond tracker failure kind unmuted beyond]
    exact List.mem_singleton_self _

/-- A failure at the furthest offset drives no other one out. -/
theorem records_subset_recordFailure (unmuted : tracker.muteDepth = 0) :
    tracker.records ⊆ (tracker.recordFailure failure tracker.furthest kind).records := by
  rw [recordFailure_of_level tracker failure kind unmuted]
  exact fun record held => mem_insertNew.mpr (.inl held)

variable {tracker}

theorem merge_of_behind (behind : tracker.furthest < other.furthest) : tracker.merge other =
    { tracker with furthest := other.furthest, records := other.records } := if_pos behind

theorem merge_of_level (level : tracker.furthest = other.furthest) : tracker.merge other =
    { tracker with records := other.records.foldl insertNew tracker.records } := by
  rw [merge, if_neg (by omega), if_pos level.symm]

theorem merge_of_ahead (ahead : other.furthest < tracker.furthest) :
    tracker.merge other = tracker := by
  rw [merge, if_neg (by omega), if_neg (by omega)]

theorem merge_furthest (tracker other : Tracker) :
    (tracker.merge other).furthest = max tracker.furthest other.furthest := by
  rcases lt_trichotomy tracker.furthest other.furthest with behind | level | ahead
  · rw [merge_of_behind behind, max_eq_right behind.le]
  · rw [merge_of_level level, level, max_self]
  · rw [merge_of_ahead ahead, max_eq_left ahead.le]

end Cases

/-- The tracker holds the furthest offset of some recordings and the different records there. -/
structure Summarizes (tracker : Tracker) (recordings : List Recording) : Prop where
  furthest_eq : tracker.furthest = furthestOffset recordings
  records_eq : tracker.records = recordsAt recordings tracker.furthest

namespace Summarizes

variable {tracker other : Tracker} {recordings later : List Recording}

theorem empty : Summarizes {} [] := ⟨rfl, rfl⟩

/-- Which scopes are open does not matter to a summary. -/
theorem congr (summary : Summarizes tracker recordings) (same : tracker.SameFailures other) :
    Summarizes other recordings := by
  constructor
  · rw [← same.furthest]
    exact summary.furthest_eq
  · rw [← same.records, ← same.furthest]
    exact summary.records_eq

theorem recordFailure (summary : Summarizes tracker recordings) (unmuted : tracker.muteDepth = 0)
    (failure : Failure) (offset : Int) (kind : Option Lookahead) :
    Summarizes (tracker.recordFailure failure offset kind)
      (recordings ++ [⟨offset, tracker.recordOf failure kind⟩]) := by
  have reached := summary.furthest_eq
  have held := summary.records_eq
  constructor
  · rw [recordFailure_furthest tracker failure kind unmuted, furthestOffset_concat, reached]
  · -- The new recording is nearer than the furthest offset, at it, or beyond it.
    rcases lt_trichotomy offset tracker.furthest with near | rfl | beyond
    · rw [recordFailure_of_near tracker failure kind near, recordsAt_append,
        recordsAt_singleton_of_ne (ne_of_lt near)]
      exact held
    · rw [recordFailure_of_level tracker failure kind unmuted, recordsAt_append,
        recordsAt_singleton, ← held]
      rfl
    · rw [recordFailure_of_beyond tracker failure kind unmuted beyond]
      dsimp only
      rw [recordsAt_append_of_beyond_left (by omega), recordsAt_singleton]

/-- Two trackers merged summarize the recordings of the one, followed by those of the other. -/
theorem merge (first : Summarizes tracker recordings) (second : Summarizes other later) :
    Summarizes (tracker.merge other) (recordings ++ later) := by
  have reached := first.furthest_eq
  have met := second.furthest_eq
  constructor
  · rw [merge_furthest, furthestOffset_append, reached, met]
  · -- What one of them recorded at the offset of the other counts only if that is not beyond it.
    rcases lt_trichotomy tracker.furthest other.furthest with behind | level | ahead
    · rw [merge_of_behind behind]
      dsimp only
      rw [recordsAt_append_of_beyond_left (by omega)]
      exact second.records_eq
    · rw [merge_of_level level, recordsAt_append, ← first.records_eq, level, ← second.records_eq]
    · rw [merge_of_ahead ahead, recordsAt_append_of_beyond_right (by omega)]
      exact first.records_eq

end Summarizes

end Tracker

end Peg
