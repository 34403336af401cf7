import Peg.Proofs.Action.Contracts

/-!
# Families of actions that halt

The recursive evaluation is a family of actions, one for each amount of fuel, each of which
approximates those with more. The family halts if from every state some amount is enough. Two
families in a row halt if the first one does, and the second one does for each answer of the first:
the greater of two amounts that are enough for the parts is enough for both.
-/
namespace Peg.Action

variable {α β : Type}

/-- With more fuel the actions end where they ended, and with enough fuel they do end. What they
answer satisfies a condition. -/
structure Halts (family : Nat → Action α) (holds : α → Prop) : Prop where
  grows : ∀ {less more : Nat}, less ≤ more → (family less).Approximates (family more)
  sound : ∀ {fuel : Nat} {before after : State} {value : α},
    family fuel before = .done value after → holds value
  ends : ∀ before, ∃ fuel, family fuel before ≠ .exhausted

namespace Halts

variable {family : Nat → Action α} {holds : α → Prop}

theorem mono {weaker : α → Prop} (halts : Halts family holds)
    (weaken : ∀ value, holds value → weaker value) : Halts family weaker :=
  ⟨halts.grows, fun ended => weaken _ (halts.sound ended), halts.ends⟩

theorem of_fulfils {contract : Contract} {action : Action α}
    (fulfils : Fulfils contract action holds) (total : contract.total)
    (admits : ∀ items, contract.items items) :
    Halts (fun _ => action) holds := by
  refine ⟨fun _ => .refl action, fun {_ before after value} ended => ?_, fun before => ⟨0, ?_⟩⟩
  · have satisfied := fulfils before (admits _)
    rw [ended] at satisfied
    exact satisfied.2
  · intro endless
    have satisfied := fulfils before (admits _)
    rw [endless] at satisfied
    exact satisfied total

theorem pure {value : α} (satisfied : holds value) : Halts (fun _ => Pure.pure value) holds := by
  refine ⟨fun _ => .refl _, fun ended => ?_, fun before => ⟨0, nofun⟩⟩
  cases ended
  exact satisfied

/-- An amount of fuel that is enough stays enough. -/
theorem enough (halts : Halts family holds) (before : State) :
    ∃ fuel, ∀ more, fuel ≤ more → family more before = family fuel before ∧
      family fuel before ≠ .exhausted := by
  obtain ⟨fuel, ended⟩ := halts.ends before
  refine ⟨fuel, fun more le => ⟨?_, ended⟩⟩
  exact (halts.grows le before).resolve_left ended

theorem bind {next : Nat → α → Action β} {later : β → Prop} (first : Halts family holds)
    (rest : ∀ value, holds value → Halts (next · value) later) :
    Halts (fun fuel => family fuel >>= next fuel) later := by
  refine ⟨fun {less more} le before => ?_, fun {fuel before after value} ended => ?_,
    fun before => ?_⟩
  · rcases first.grows le before with endless | same
    · exact .inl (bind_of_exhausted endless)
    · -- Where the first family ends it does so with either amount, and answers the same.
      cases outcome : family less before with
      | done value middle =>
        rw [bind_of_done outcome, bind_of_done (same.trans outcome)]
        exact (rest value (first.sound outcome)).grows le middle
      | fault cause after =>
        exact .inr (by rw [bind_of_fault outcome, bind_of_fault (same.trans outcome)])
      | exhausted => exact .inl (bind_of_exhausted outcome)
  · obtain ⟨inner, middle, began, went⟩ := bind_eq_done ended
    exact (rest inner (first.sound began)).sound went
  · obtain ⟨early, enough⟩ := first.enough before
    have ended := (enough early (Nat.le_refl early)).2
    cases outcome : family early before with
    | done value middle =>
      obtain ⟨late, enoughLate⟩ := (rest value (first.sound outcome)).enough middle
      -- The greater of the two amounts is enough for both.
      have same := (enough (max early late) (Nat.le_max_left early late)).1
      have sameLate := enoughLate (max early late) (Nat.le_max_right early late)
      refine ⟨max early late, ?_⟩
      rw [bind_of_done (same.trans outcome), sameLate.1]
      exact sameLate.2
    | fault cause after =>
      refine ⟨early, ?_⟩
      rw [bind_of_fault outcome]
      exact nofun
    | exhausted => exact absurd outcome ended

theorem within (scope : Scope) (halts : Halts family holds) :
    Halts (fun fuel => Action.within scope (family fuel)) holds := by
  refine ⟨fun le => (halts.grows le).within scope, fun {fuel before after value} ended => ?_,
    fun before => ?_⟩
  · unfold Action.within at ended
    split at ended
    next answer middle began =>
      cases ended
      exact halts.sound began
    · cases ended
    · cases ended
  · obtain ⟨fuel, ended⟩ := halts.ends { before with tracker := before.tracker.enter scope }
    refine ⟨fuel, ?_⟩
    unfold Action.within
    split
    · exact nofun
    · exact nofun
    next endless => exact absurd endless ended

theorem withinAny (scope? : Option Scope) (halts : Halts family holds) :
    Halts (fun fuel => Action.withinAny scope? (family fuel)) holds := by
  cases scope? with
  | none => exact halts
  | some scope => exact halts.within scope

theorem later (halts : Halts family holds) : Halts (fun fuel => family (fuel + 1)) holds := by
  refine ⟨fun le => halts.grows (Nat.succ_le_succ le), halts.sound, fun before => ?_⟩
  obtain ⟨fuel, enough⟩ := halts.enough before
  have same := enough (fuel + 1) (Nat.le_succ fuel)
  exact ⟨fuel, same.1 ▸ same.2⟩

/-- A recursion that takes one unit of fuel to begin. -/
theorem of_succ (nothing : family 0 = Action.exhausted)
    (halts : Halts (fun fuel => family (fuel + 1)) holds) : Halts family holds := by
  refine ⟨fun {less more} le => ?_, fun {fuel before after value} ended => ?_, fun before => ?_⟩
  · cases less with
    | zero =>
      rw [nothing]
      exact .exhausted _
    | succ less =>
      obtain ⟨more, rfl⟩ := Nat.exists_eq_add_of_le' (Nat.le_trans (Nat.succ_pos less) le)
      exact halts.grows (Nat.le_of_succ_le_succ le)
  · cases fuel with
    | zero =>
      rw [nothing] at ended
      cases ended
    | succ fuel => exact halts.sound ended
  · obtain ⟨fuel, ended⟩ := halts.ends before
    exact ⟨fuel + 1, ended⟩

/-- More may be known of the answers than what is known from their being computed so. -/
theorem strengthen {stronger : α → Prop} (halts : Halts family holds)
    (sound : ∀ {fuel : Nat} {before after : State} {value : α},
      family fuel before = .done value after → stronger value) : Halts family stronger :=
  ⟨halts.grows, sound, halts.ends⟩

end Halts

end Peg.Action
