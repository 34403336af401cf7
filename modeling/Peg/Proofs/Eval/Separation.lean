import Mathlib.Order.Lattice
import Peg.Proofs.Eval.Tracking
import Peg.Proofs.Machine.Endings
import Peg.Proofs.Tracker.Summary

/-!
# One tracker and separate trackers

All matching records its failures in one tracker. It might as well be given a tracker of its own
each time, with the same scopes open and no failure in it, and have its failures merged into those
held before.

The proof puts the two side by side: at every moment the shared tracker is the separate one, laid
over what was held before. Recording a failure in either keeps it so, which is where duplicates,
ties and further failures have to be told apart; scopes do not matter to it.

## Main result

Matching with a shared tracker and with a separate one end alike, and the separate one merged into
what was held before gives the shared one. The alternatives of a choice are a special case: each of
them may have a tracker of its own, and the choice merges them in order.
-/
namespace Peg

namespace Tracker

/-- A tracker with the same open scopes that holds no failure. -/
def separate (tracker : Tracker) : Tracker := { tracker with furthest := -1, records := [] }

/-- A tracker with its failures merged into those that another one holds. -/
def overlay (held tracker : Tracker) : Tracker :=
  { tracker with
    furthest := (held.merge tracker).furthest
    records := (held.merge tracker).records }

section Overlay

variable (held tracker : Tracker)

theorem overlay_of_behind (behind : held.furthest < tracker.furthest) :
    held.overlay tracker = tracker := by
  rw [overlay, merge_of_behind behind]

theorem overlay_of_level (level : held.furthest = tracker.furthest) : held.overlay tracker =
    { tracker with records := tracker.records.foldl insertNew held.records } := by
  rw [overlay, merge_of_level level, level]

theorem overlay_of_ahead (ahead : tracker.furthest < held.furthest) : held.overlay tracker =
    { tracker with furthest := held.furthest, records := held.records } := by
  rw [overlay, merge_of_ahead ahead]

theorem overlay_furthest : (held.overlay tracker).furthest = max held.furthest tracker.furthest :=
  merge_furthest held tracker

variable (failure : Failure) (kind : Option Lookahead)

/-- A failure at the furthest offset of a tracker may be recorded after those held are merged in. -/
theorem overlay_recordFailure_of_level (unmuted : tracker.muteDepth = 0) :
    held.overlay (tracker.recordFailure failure tracker.furthest kind) =
      (held.overlay tracker).recordFailure failure tracker.furthest kind := by
  rw [recordFailure_of_level tracker failure kind unmuted]
  rcases lt_trichotomy held.furthest tracker.furthest with behind | level | ahead
  · rw [overlay_of_behind held tracker behind, recordFailure_of_level tracker failure kind unmuted]
    exact overlay_of_behind held _ behind
  · -- A tie: the record is new to all together if it is new to neither of the two.
    let shared : Tracker :=
      { tracker with records := tracker.records.foldl insertNew held.records }
    have merged : held.overlay tracker = shared := overlay_of_level held tracker level
    have recorded := recordFailure_of_level shared failure kind unmuted
    let noted : Tracker :=
      { tracker with records := insertNew tracker.records (tracker.recordOf failure kind) }
    have united : held.overlay noted =
        { noted with records := noted.records.foldl insertNew held.records } :=
      overlay_of_level held noted level
    rw [merged, recorded, united, foldl_insertNew_insertNew]
    rfl
  · have near := recordFailure_of_near (held.overlay tracker) failure kind
      (ahead.trans_le (by rw [overlay_furthest]; exact le_max_left _ _))
    rw [near, overlay_of_ahead held tracker ahead]
    exact overlay_of_ahead held _ ahead

/-- A failure beyond the furthest offset of a tracker may be recorded after those held are merged
in. -/
theorem overlay_recordFailure_of_beyond (unmuted : tracker.muteDepth = 0) {offset : Int}
    (beyond : tracker.furthest < offset) :
    held.overlay (tracker.recordFailure failure offset kind) =
      (held.overlay tracker).recordFailure failure offset kind := by
  have reach := overlay_furthest held tracker
  rw [recordFailure_of_beyond tracker failure kind unmuted beyond]
  rcases lt_trichotomy held.furthest offset with behind | rfl | ahead
  · rw [recordFailure_of_beyond (held.overlay tracker) failure kind unmuted (by omega)]
    exact overlay_of_behind held _ behind
  · -- What was held is at the offset of the new failure, and beyond the tracker's own.
    let shared : Tracker := { tracker with furthest := held.furthest, records := held.records }
    have merged : held.overlay tracker = shared := overlay_of_ahead held tracker beyond
    have recorded := recordFailure_of_level shared failure kind unmuted
    rw [merged, recorded]
    exact overlay_of_level held _ rfl
  · rw [recordFailure_of_near (held.overlay tracker) failure kind (by omega),
      overlay_of_ahead held tracker (by omega)]
    exact overlay_of_ahead held _ ahead

/-- A failure may be recorded before or after the failures held are merged in. -/
theorem overlay_recordFailure (offset : Int) :
    held.overlay (tracker.recordFailure failure offset kind) =
      (held.overlay tracker).recordFailure failure offset kind := by
  have reach := overlay_furthest held tracker
  rcases Nat.eq_zero_or_pos tracker.muteDepth with unmuted | muted
  · rcases lt_trichotomy offset tracker.furthest with near | rfl | beyond
    · -- What is nearer than the separate failures is nearer than all together.
      rw [recordFailure_of_near tracker failure kind near,
        recordFailure_of_near (held.overlay tracker) failure kind (by omega)]
    · exact overlay_recordFailure_of_level held tracker failure kind unmuted
    · exact overlay_recordFailure_of_beyond held tracker failure kind unmuted beyond
  · rw [recordFailure_of_muted tracker failure kind muted,
      recordFailure_of_muted (held.overlay tracker) failure kind muted]

end Overlay

theorem overlay_simulation (held : Tracker) :
    Simulation fun shared separate => shared = held.overlay separate where
  record failure offset kind same := by
    rw [same]
    exact (overlay_recordFailure held _ failure kind offset).symm
  enter scope same := by
    rw [same]
    cases scope with
    | rule | muted => rfl
    | lookahead kind => cases kind <;> rfl
  leave scope same := by
    rw [same]
    cases scope with
    | rule | muted => rfl
    | lookahead kind => cases kind <;> rfl

/-- A tracker is the one without failures, laid over itself. -/
theorem overlay_separate {tracker : Tracker} (begun : -1 ≤ tracker.furthest) :
    tracker.overlay tracker.separate = tracker := by
  rcases begun.eq_or_lt with level | ahead
  · have same : tracker.separate.furthest = tracker.furthest := level
    rw [overlay_of_level tracker tracker.separate level.symm, same]
    rfl
  · exact overlay_of_ahead tracker tracker.separate ahead

/-- If the same scopes are open in both, merging is all that laying over does. -/
theorem overlay_of_sameScopes {held tracker : Tracker} (same : held.SameScopes tracker) :
    held.overlay tracker = held.merge tracker := by
  have merged := same.symm.trans (sameScopes_merge held tracker)
  rw [overlay, merged.rules, merged.kinds, merged.muteDepth]

theorem separate_of_sameScopes {tracker other : Tracker} (same : tracker.SameScopes other) :
    tracker.separate = other.separate := by
  rw [separate, same.rules, same.kinds, same.muteDepth]
  rfl

theorem neg_one_le_merge {tracker other : Tracker} (begun : -1 ≤ tracker.furthest) :
    -1 ≤ (tracker.merge other).furthest := by
  rw [merge_furthest]
  exact begun.trans (le_max_left _ _)

end Tracker

/-! ### Matching with a tracker of its own -/

/-- The state with a tracker of its own: the same scopes are open in it, and it holds no failure. -/
def State.separate (state : State) : State := { state with tracker := state.tracker.separate }

/-- The state is another one whose tracker was merged into one held before. -/
def State.Merges (held : Tracker) (shared separate : State) : Prop :=
  shared = { separate with tracker := held.merge separate.tracker }

theorem State.tracked_separate {state : State} (begun : -1 ≤ state.tracker.furthest) :
    State.Tracked (fun shared separate => shared = state.tracker.overlay separate) state
      state.separate :=
  ⟨rfl, rfl, rfl, (Tracker.overlay_separate begun).symm⟩

section Matching

variable {env : Env} {fuel : Nat} {expr : Expr} {start : Position} {atomic : Bool} {state : State}

theorem sameScopes_of_separate {after : State}
    (ended : (eval env fuel expr start atomic state.separate).state? = some after) :
    state.tracker.SameScopes after.tracker := by
  have opened : state.tracker.SameScopes state.separate.tracker := ⟨rfl, rfl, rfl⟩
  exact opened.trans (sameScopes_of_eval ended)

theorem eval_merges (begun : -1 ≤ state.tracker.furthest) :
    (eval env fuel expr start atomic state).Related (State.Merges state.tracker)
      (eval env fuel expr start atomic state.separate) := by
  have simulation := Tracker.overlay_simulation state.tracker
  have respects := Action.Respects.eval simulation env fuel expr start atomic
  refine (respects _ _ (State.tracked_separate begun)).mono ?_
  intro shared separate _ ended tracked
  -- At the end the scopes are those of the beginning again, which are those of what was held.
  have scopes := sameScopes_of_separate ended
  have merged := tracked.tracker.trans (Tracker.overlay_of_sameScopes scopes)
  obtain ⟨stack, trace, forced, _⟩ := tracked
  cases shared
  cases stack
  cases trace
  cases forced
  cases merged
  rfl

end Matching

/-! ### Choices -/

/-- Some alternatives are tried in turn, each from the stack that the one before has left but with a
tracker of its own, until one of them matches or is broken off; these are the trackers after them,
in order. -/
inductive TriedApart (env : Env) (start : Position) (atomic : Bool) :
    List Expr → State → List Tracker → Prop
  /-- No alternative is left. -/
  | none {state : State} : TriedApart env start atomic [] state []
  /-- The first alternative matches. -/
  | matched {expr : Expr} {rest : List Expr} {state after : State} {found : Match}
      (finishes : Finishes env expr start atomic state.separate (some found) after) :
      TriedApart env start atomic (expr :: rest) state [after.tracker]
  /-- The first alternative is broken off. -/
  | broken {expr : Expr} {rest : List Expr} {state after : State} {cause : Fault}
      (breaks : Breaks env expr start atomic state.separate cause after) :
      TriedApart env start atomic (expr :: rest) state [after.tracker]
  /-- The first alternative fails, and the others are tried. -/
  | failed {expr : Expr} {rest : List Expr} {state after : State} {trackers : List Tracker}
      (finishes : Finishes env expr start atomic state.separate Option.none after)
      (others : TriedApart env start atomic rest after trackers) :
      TriedApart env start atomic (expr :: rest) state (after.tracker :: trackers)

section Choice

variable {env : Env} {start : Position} {atomic : Bool} {state after : State}

/-- The failures that are held do not matter to alternatives with trackers of their own. -/
theorem TriedApart.congr {exprs : List Expr} {other : State} {trackers : List Tracker}
    (tried : TriedApart env start atomic exprs state trackers)
    (same : state.separate = other.separate) :
    TriedApart env start atomic exprs other trackers := by
  cases tried with
  | none => exact .none
  | matched finishes => exact .matched (same ▸ finishes)
  | broken breaks => exact .broken (same ▸ breaks)
  | failed finishes others => exact .failed (same ▸ finishes) others

theorem state_of_answer {stop : Position} {node : Span → Option Match}
    (ended : ((Action.span start stop >>= fun span => pure (node span)) state).state? =
      some after) : after = state := by
  unfold Action.span at ended
  cases made : start.spanTo stop with
  | ok span | error error =>
    rw [made] at ended
    cases ended
    rfl

theorem alternatives_merge {fuel : Nat} (exprs : List Expr) (index : Nat)
    (begun : -1 ≤ state.tracker.furthest)
    (ended : (Eval.alternatives (eval env fuel) atomic start index exprs state).state? =
      some after) :
    ∃ trackers, TriedApart env start atomic exprs state trackers ∧
      after.tracker = trackers.foldl Tracker.merge state.tracker := by
  induction exprs generalizing index state with
  | nil =>
    cases ended
    exact ⟨[], .none, rfl⟩
  | cons expr rest ih =>
    have alike : (eval env fuel expr start atomic state).Related _ _ := eval_merges begun
    unfold Eval.alternatives at ended
    generalize reached : eval env fuel expr start atomic state = outcome at alike
    generalize met : eval env fuel expr start atomic state.separate = apart at alike
    cases alike with
    | @done result shared separate merges =>
      rw [Action.bind_of_done reached] at ended
      have finishes := finishes_iff_eval.mpr ⟨fuel, met⟩
      subst merges
      cases result with
      | none =>
        -- The others go on from the stack that this one has left.
        obtain ⟨trackers, tried, merged⟩ := ih (index + 1) (Tracker.neg_one_le_merge begun) ended
        have scopes := sameScopes_of_separate (congrArg Outcome.state? met)
        have same := Tracker.separate_of_sameScopes
          ((Tracker.sameScopes_merge state.tracker separate.tracker).symm.trans scopes)
        have others := tried.congr
          (congrArg (fun tracker => { separate with tracker := tracker }) same)
        exact ⟨separate.tracker :: trackers, .failed finishes others, merged⟩
      | some found =>
        have same := state_of_answer ended
        subst same
        exact ⟨[separate.tracker], .matched finishes, rfl⟩
    | @fault cause shared separate merges =>
      rw [Action.bind_of_fault reached] at ended
      have breaks := breaks_iff_eval.mpr ⟨fuel, met⟩
      cases ended
      subst merges
      exact ⟨[separate.tracker], .broken breaks, rfl⟩
    | exhausted =>
      rw [Action.bind_of_exhausted reached] at ended
      cases ended

end Choice

/-! ### Main result -/

/-- Matching with a tracker that holds failures ends as it does with one that holds none but has the
same scopes open: with the same result or fault and the same stack, and the failures are those held
before, with those of the separate tracker merged into them. More than that, what a tracker holds
never matters to how matching ends. The failures of a choice are those of its alternatives, each
tried with a tracker of its own, merged in order.

A tracker starts at `-1`, where the separate ones start, too, and its furthest offset never becomes
less (`History.neg_one_le_furthest`). -/
theorem shared_tracker_merges_separate (env : Env) (expr : Expr) (start : Position) (atomic : Bool)
    (state : State) (begun : -1 ≤ state.tracker.furthest) :
    EndAlike (State.Merges state.tracker) env expr start atomic state state.separate ∧
      (∀ tracker : Tracker, EndAlike State.SameButTracker env expr start atomic state
        { state with tracker := tracker }) ∧
      ∀ first rest after, Leaves env (.choice first rest) start atomic state after →
        ∃ trackers, TriedApart env start atomic (first :: rest) state trackers ∧
          after.tracker = trackers.foldl Tracker.merge state.tracker := by
  refine ⟨?_, ?_, ?_⟩
  · exact endAlike_of_eval fun fuel => eval_merges begun
  · intro tracker
    exact endAlike_of_eval fun fuel => eval_sameButTracker state tracker
  · intro first rest after leaves
    obtain ⟨fuel, ended⟩ := leaves.exists_eval
    exact alternatives_merge (first :: rest) 0 begun ended

/-- Two letters are expected in vain where something else was expected before. -/
theorem failed_letters_merge :
    -1 ≤ (Tracker.recordEmptyStack {} 0).furthest ∧
      ∃ after trackers,
        Leaves { input := ⟨0, #['c']⟩ } (.choice (.literal "a") [.literal "b"])
            (.start ⟨0, #['c']⟩) true { tracker := Tracker.recordEmptyStack {} 0 } after ∧
          TriedApart { input := ⟨0, #['c']⟩ } (.start ⟨0, #['c']⟩) true
            [.literal "a", .literal "b"] { tracker := Tracker.recordEmptyStack {} 0 } trackers ∧
          after.tracker = trackers.foldl Tracker.merge (Tracker.recordEmptyStack {} 0) ∧
          after.tracker.records.map Record.failure =
            [.emptyStack, .literal "a" false, .literal "b" false] := by
  have begun : -1 ≤ (Tracker.recordEmptyStack {} 0).furthest := by decide
  have merges := shared_tracker_merges_separate { input := ⟨0, #['c']⟩ }
    (.choice (.literal "a") [.literal "b"]) (.start ⟨0, #['c']⟩) true
    { tracker := Tracker.recordEmptyStack {} 0 } begun
  have leaves : Leaves { input := ⟨0, #['c']⟩ } (.choice (.literal "a") [.literal "b"])
    (.start ⟨0, #['c']⟩) true { tracker := Tracker.recordEmptyStack {} 0 } _ := ⟨10, rfl⟩
  obtain ⟨trackers, tried, merged⟩ := merges.2.2 _ _ _ leaves
  exact ⟨begun, _, trackers, leaves, tried, merged, rfl⟩

end Peg
