import Peg.Tracker

/-!
# The two parts of a tracker

A tracker holds failures and open scopes. Opening and closing a scope leaves the failures alone;
recording a failure and merging those of another tracker leave the scopes alone.
-/
namespace Peg.Tracker

/-! ### Failures -/

/-- The same failures are held, whatever scopes are open. -/
structure SameFailures (tracker other : Tracker) : Prop where
  furthest : tracker.furthest = other.furthest
  records : tracker.records = other.records

namespace SameFailures

variable {first second third : Tracker}

theorem refl (tracker : Tracker) : SameFailures tracker tracker := ⟨rfl, rfl⟩

theorem trans (early : SameFailures first second) (late : SameFailures second third) :
    SameFailures first third :=
  ⟨early.furthest.trans late.furthest, early.records.trans late.records⟩

end SameFailures

theorem sameFailures_enter (tracker : Tracker) (scope : Scope) :
    SameFailures tracker (tracker.enter scope) := by
  cases scope with
  | rule | muted => exact ⟨rfl, rfl⟩
  | lookahead kind => cases kind <;> exact ⟨rfl, rfl⟩

theorem sameFailures_leave (tracker : Tracker) (scope : Scope) :
    SameFailures tracker (tracker.leave scope) := by
  cases scope with
  | rule | muted => exact ⟨rfl, rfl⟩
  | lookahead kind => cases kind <;> exact ⟨rfl, rfl⟩

/-! ### Scopes -/

/-- The same rules and lookaheads are open, and equally many scopes mute the trackers. -/
structure SameScopes (tracker other : Tracker) : Prop where
  rules : tracker.rules = other.rules
  kinds : tracker.kinds = other.kinds
  muteDepth : tracker.muteDepth = other.muteDepth

namespace SameScopes

variable {first second third : Tracker}

theorem refl (tracker : Tracker) : SameScopes tracker tracker := ⟨rfl, rfl, rfl⟩

theorem symm (same : SameScopes first second) : SameScopes second first :=
  ⟨same.rules.symm, same.kinds.symm, same.muteDepth.symm⟩

theorem trans (early : SameScopes first second) (late : SameScopes second third) :
    SameScopes first third :=
  ⟨early.rules.trans late.rules, early.kinds.trans late.kinds,
    early.muteDepth.trans late.muteDepth⟩

theorem enter (same : SameScopes first second) (scope : Scope) :
    SameScopes (first.enter scope) (second.enter scope) := by
  obtain ⟨rules, kinds, muteDepth⟩ := same
  cases scope with
  | rule name => exact ⟨congrArg (name :: ·) rules, kinds, muteDepth⟩
  | lookahead kind =>
    cases kind with
    | positive => exact ⟨rules, congrArg (Lookahead.positive :: ·) kinds, muteDepth⟩
    | negative =>
      exact ⟨rules, congrArg (Lookahead.negative :: ·) kinds, congrArg (· + 1) muteDepth⟩
  | muted => exact ⟨rules, kinds, congrArg (· + 1) muteDepth⟩

theorem leave (same : SameScopes first second) (scope : Scope) :
    SameScopes (first.leave scope) (second.leave scope) := by
  obtain ⟨rules, kinds, muteDepth⟩ := same
  cases scope with
  | rule name => exact ⟨congrArg List.tail rules, kinds, muteDepth⟩
  | lookahead kind =>
    cases kind with
    | positive => exact ⟨rules, congrArg List.tail kinds, muteDepth⟩
    | negative => exact ⟨rules, congrArg List.tail kinds, congrArg (· - 1) muteDepth⟩
  | muted => exact ⟨rules, kinds, congrArg (· - 1) muteDepth⟩

end SameScopes

theorem sameScopes_recordFailure (tracker : Tracker) (failure : Failure) (offset : Int)
    (kind : Option Lookahead) : SameScopes tracker (tracker.recordFailure failure offset kind) := by
  unfold recordFailure
  split
  · exact .refl tracker
  · split
    · exact .refl tracker
    · split
      · exact ⟨rfl, rfl, rfl⟩
      · exact ⟨rfl, rfl, rfl⟩

theorem sameScopes_merge (held tracker : Tracker) : held.SameScopes (held.merge tracker) := by
  unfold merge
  split
  · exact ⟨rfl, rfl, rfl⟩
  · split
    · exact ⟨rfl, rfl, rfl⟩
    · exact .refl held

end Peg.Tracker
