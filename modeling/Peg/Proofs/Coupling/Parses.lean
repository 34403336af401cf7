import Peg.Proofs.Coupling.Evaluation
import Peg.Proofs.Grammar.Roots
import Peg.Proofs.Parse.Completion

/-!
# Coupled parses

A lawful coupling is as lawful seen from the other side, so that either side follows the other: both
come to an end or neither does, and the ends correspond. From the evaluation this carries over to
the machine, and from there to parses, since roots that correspond lead to the same kinds of rules.

If the sides need not look up the same, one of them may be broken off where it has no text to show.
Then nothing is known of the other one, but as long as that does not happen they end together.
-/
namespace Peg

open List (Forall₂)
open Peg.Action (Coupled)

/-! ### The other side -/

namespace Coupling

/-- The coupling seen from the other side. -/
def flip (coupling : Coupling) : Coupling where
  places here there := coupling.places there here
  spans span other := coupling.spans other span
  nodes node other := coupling.nodes other node
  trackers held other := coupling.trackers other held
  faults cause other := coupling.faults other cause
  kinds name kind changed := coupling.kinds name changed kind
  terminals := coupling.terminals
  exprs expr target := coupling.exprs target expr
  sameLookups := coupling.sameLookups

variable {coupling : Coupling} {left right : Env}

theorem States.flip {before also : State} (states : coupling.States before also) :
    coupling.flip.States also before :=
  ⟨states.stack.flip, states.tracker, fun must => (states.forced must).symm⟩

theorem Matches.flip {found matched : Match} (same : coupling.Matches found matched) :
    coupling.flip.Matches matched found := ⟨same.stop, same.node⟩

theorem Results.flip {result also : Option Match} (results : coupling.Results result also) :
    coupling.flip.Results also result := by
  cases results with
  | some same => exact .some same.flip
  | none => exact .none

theorem Ends.flip {α β : Type} {values : α → β → Prop} {first : Outcome α} {second : Outcome β}
    (ends : coupling.Ends values first second) :
    coupling.flip.Ends (fun value other => values other value) second first := by
  cases ends with
  | done value states => exact .done value states.flip
  | fault cause states => exact .fault cause states.flip

theorem coupled_flip {α β : Type} {values : α → β → Prop} {first : Action α} {second : Action β}
    (coupled : Coupled coupling values first second) :
    Coupled coupling.flip (fun value other => values other value) second first :=
  fun before also states => (coupled also before states.flip).flip

theorem Scopes.flip {scope? also : Option Scope} (scopes : coupling.Scopes scope? also) :
    coupling.flip.Scopes also scope? := by
  cases scopes with
  | same scope => exact .same scope
  | rule kinds => exact .rule kinds

theorem SpansAlike.flip {first second : Except PositionError Span}
    (alike : coupling.SpansAlike first second) : coupling.flip.SpansAlike second first := by
  cases alike with
  | ok spans => exact .ok spans
  | error faults => exact .error faults

theorem Shape.flip {expr target : Expr} (shape : coupling.Shape left right expr target) :
    coupling.flip.Shape right left target expr := by
  induction shape with
  | terminal allowed => exact .terminal allowed
  | seq exprs => exact .seq (forall₂_flip exprs)
  | choice exprs => exact .choice (forall₂_flip exprs)
  | opt exprs => exact .opt exprs
  | rep exprs => exact .rep exprs
  | positive exprs => exact .positive exprs
  | negative exprs => exact .negative exprs
  | restorable exprs => exact .restorable exprs
  | push exprs => exact .push exprs
  | rule kinds exprs => exact .rule kinds exprs
  | ref targets => exact .ref (rel_flip targets)
  | lazy targets => exact .lazy targets.flip
  | ignored => exact .ignored
  | pair exprs => exact .pair exprs
  | abstract => exact .abstract
  | leftRef defined _ ih => exact .rightRef defined ih
  | rightRef defined _ ih => exact .leftRef defined ih
  | leftLazy free resolved _ ih => exact .rightLazy free resolved ih
  | rightLazy free resolved _ ih => exact .leftLazy free resolved ih

theorem Lawful.flip (lawful : coupling.Lawful left right) : coupling.flip.Lawful right left where
  shape exprs := (lawful.shape exprs).flip
  repeatLimit := lawful.repeatLimit.symm
  skippers := forall₂_flip lawful.skippers
  faults := lawful.faults
  same first second := (lawful.same first second).symm
  spanTo starts stops := (lawful.spanTo starts stops).flip
  attempt allowed places :=
    (coupled_flip (lawful.attempt allowed places)).mono fun _ _ results => Results.flip results
  nothing := lawful.nothing
  seq spans nodes := lawful.seq spans (forall₂_flip nodes)
  choice index := lawful.choice index
  opt := lawful.opt
  rep spans nodes := lawful.rep spans (forall₂_flip nodes)
  predicate positive := lawful.predicate positive
  push := lawful.push
  rule kinds := lawful.rule kinds
  bodyAtomic atomic kinds := (lawful.bodyAtomic atomic kinds).symm
  record failure := lawful.record failure
  text forced must exprs := (lawful.text forced must exprs).symm
  recordPredicate positive same :=
    lawful.recordPredicate positive fun must => (same must).symm
  enter scopes := lawful.enter scopes.flip
  leave scopes := lawful.leave scopes.flip

end Coupling

/-! ### Ends on both sides -/

/-- Given more and more fuel, both sides come to an end or neither does, and the ends correspond. -/
structure EndTogether {α β : Type} (ends : Outcome α → Outcome β → Prop) (first : Nat → Outcome α)
    (second : Nat → Outcome β) : Prop where
  both : (∃ fuel, first fuel ≠ .exhausted) ↔ ∃ fuel, second fuel ≠ .exhausted
  ends : ∀ fuel other, first fuel ≠ .exhausted → second other ≠ .exhausted →
    ends (first fuel) (second other)

theorem EndTogether.mono {α β : Type} {ends weaker : Outcome α → Outcome β → Prop}
    {first : Nat → Outcome α} {second : Nat → Outcome β} (together : EndTogether ends first second)
    (weaken : ∀ fuel other, ends (first fuel) (second other) →
      weaker (first fuel) (second other)) : EndTogether weaker first second :=
  ⟨together.both, fun fuel other ended also => weaken fuel other (together.ends _ _ ended also)⟩

/-- Given more and more fuel, both sides come to ends that correspond, or neither comes to an end;
or one of them is broken off because an expression that it was to show has no text. -/
structure EndTogetherUnlessEndless {α β : Type} (ends : Outcome α → Outcome β → Prop)
    (first : Nat → Outcome α) (second : Nat → Outcome β) : Prop where
  onward : ∀ fuel, first fuel ≠ .exhausted →
    (first fuel).Endless ∨ ∃ other, second other ≠ .exhausted
  back : ∀ fuel, second fuel ≠ .exhausted →
    (second fuel).Endless ∨ ∃ other, first other ≠ .exhausted
  ends : ∀ fuel other, first fuel ≠ .exhausted → second other ≠ .exhausted →
    (first fuel).Endless ∨ (second other).Endless ∨ ends (first fuel) (second other)

theorem EndTogetherUnlessEndless.mono {α β : Type} {ends weaker : Outcome α → Outcome β → Prop}
    {first : Nat → Outcome α} {second : Nat → Outcome β}
    (together : EndTogetherUnlessEndless ends first second)
    (weaken : ∀ fuel other, ends (first fuel) (second other) →
      weaker (first fuel) (second other)) : EndTogetherUnlessEndless weaker first second where
  onward := together.onward
  back := together.back
  ends fuel other ended finished :=
    (together.ends fuel other ended finished).imp_right (.imp_right (weaken fuel other))

/-- If neither side is ever broken off for want of a text, the two sides end together. -/
theorem EndTogetherUnlessEndless.together {α β : Type} {ends : Outcome α → Outcome β → Prop}
    {first : Nat → Outcome α} {second : Nat → Outcome β}
    (alike : EndTogetherUnlessEndless ends first second) (shown : ∀ fuel, ¬(first fuel).Endless)
    (also : ∀ fuel, ¬(second fuel).Endless) : EndTogether ends first second where
  both := by
    constructor
    · rintro ⟨fuel, ended⟩
      exact (alike.onward fuel ended).resolve_left (shown fuel)
    · rintro ⟨fuel, ended⟩
      exact (alike.back fuel ended).resolve_left (also fuel)
  ends fuel other ended finished :=
    ((alike.ends fuel other ended finished).resolve_left (shown fuel)).resolve_left (also other)

section Together

variable {α β : Type} {coupling : Coupling} {values : α → β → Prop} {others : β → α → Prop}
  {first : Nat → Action α} {second : Nat → Action β} {before also : State}

theorem Coupling.Excuses.ne_exhausted {outcome : Outcome α} (excused : coupling.Excuses outcome) :
    outcome ≠ .exhausted := by
  obtain ⟨_, after, rfl⟩ := excused
  exact nofun

/-- Unless it is excused, what ends is followed to an end. -/
theorem ends_of_follows (follows : ∀ fuel, Action.Follows coupling values (first fuel) second)
    (states : coupling.States before also) {fuel : Nat} (ended : first fuel before ≠ .exhausted) :
    coupling.Excuses (first fuel before) ∨ ∃ other outcome, outcome ≠ .exhausted ∧
      (coupling.Excuses outcome ∨ coupling.Ends values (first fuel before) outcome) ∧
      second other also = outcome := by
  rcases follows fuel before also states with
    endless | excused | ⟨outcome, ends, enough, reached⟩
  · exact absurd endless ended
  · exact .inl excused
  · refine .inr ⟨enough, outcome, ?_, ends, reached enough (Nat.le_refl _)⟩
    exact ends.elim Coupling.Excuses.ne_exhausted Coupling.Ends.right_ne

/-- Whatever the two sides come to, the ends correspond unless one of them is excused. -/
theorem ends_correspond (follows : ∀ fuel, Action.Follows coupling values (first fuel) second)
    (grows : ∀ {less more}, less ≤ more → (second less).Approximates (second more))
    (states : coupling.States before also) {fuel other : Nat}
    (ended : first fuel before ≠ .exhausted) (finished : second other also ≠ .exhausted) :
    coupling.Excuses (first fuel before) ∨ coupling.Excuses (second other also) ∨
      coupling.Ends values (first fuel before) (second other also) := by
  obtain excused | ⟨enough, outcome, ends, corresponds, reached⟩ :=
    ends_of_follows follows states ended
  · exact .inl excused
  -- With enough fuel for both, the second side ends as it does with its own.
  have settled (less : Nat) (halted : second less also ≠ .exhausted)
      (within : less ≤ max other enough) :
      second (max other enough) also = second less also :=
    (grows within also).resolve_left halted
  have same : second other also = outcome := by
    rw [← settled other finished (Nat.le_max_left ..),
      settled enough (reached ▸ ends) (Nat.le_max_right ..), reached]
  exact .inr (same ▸ corresponds)

variable (early : ∀ fuel, Action.Follows coupling values (first fuel) second)
  (late : ∀ fuel, Action.Follows coupling.flip others (second fuel) first)
  (grows : ∀ {less more}, less ≤ more → (second less).Approximates (second more))
  (states : coupling.States before also)

include early late grows states

/-- Two families each of which follows the other end together, if the same is looked up. -/
theorem endTogether_of_follows (must : coupling.sameLookups) :
    EndTogether (coupling.Ends values) (first · before) (second · also) := by
  refine ⟨⟨?_, ?_⟩, fun fuel other ended finished => ?_⟩
  · rintro ⟨fuel, ended⟩
    obtain excused | ⟨other, outcome, ends, _, rfl⟩ := ends_of_follows early states ended
    · exact absurd must excused.1
    · exact ⟨other, ends⟩
  · rintro ⟨fuel, ended⟩
    obtain excused | ⟨other, outcome, ends, _, rfl⟩ := ends_of_follows late states.flip ended
    · exact absurd must excused.1
    · exact ⟨other, ends⟩
  · obtain excused | excused | ends := ends_correspond early grows states ended finished
    · exact absurd must excused.1
    · exact absurd must excused.1
    · exact ends

/-- In any case they end together as long as there are texts. -/
theorem endTogetherUnlessEndless_of_follows :
    EndTogetherUnlessEndless (coupling.Ends values) (first · before) (second · also) where
  onward fuel ended := by
    obtain excused | ⟨other, outcome, ends, _, rfl⟩ := ends_of_follows early states ended
    · exact .inl excused.2
    · exact .inr ⟨other, ends⟩
  back fuel ended := by
    obtain excused | ⟨other, outcome, ends, _, rfl⟩ := ends_of_follows late states.flip ended
    · exact .inl excused.2
    · exact .inr ⟨other, ends⟩
  ends fuel other ended finished :=
    (ends_correspond early grows states ended finished).imp And.right (.imp_left And.right)

end Together

/-! ### Roots -/

namespace Env

variable {env : Env} {depth : Nat} {target : Expr}

theorem isAtomicWithin_ref {name : String} (within : env.isAtomicWithin depth (.ref name) = true)
    (defined : env.rules.lookup name = some target) :
    ∃ less < depth, env.isAtomicWithin less target = true := by
  cases depth with
  | zero => cases within
  | succ less =>
    simp only [isAtomicWithin, defined] at within
    exact ⟨less, Nat.lt_succ_self less, within⟩

theorem isAtomicWithin_lazy {cell : LazyCell}
    (within : env.isAtomicWithin depth (.lazy cell) = true)
    (resolved : env.definitions.resolve cell = .ok target) :
    ∃ less < depth, env.isAtomicWithin less target = true := by
  cases depth with
  | zero => cases within
  | succ less =>
    simp only [isAtomicWithin, resolved] at within
    exact ⟨less, Nat.lt_succ_self less, within⟩

end Env

namespace Coupling.Lawful

variable {coupling : Coupling} {left right : Env} (lawful : coupling.Lawful left right)

include lawful

/-- What leads to an atomic rule within some depth leads to one on the other side as well. The
induction is on the depth; where only the other side has something to follow, it is on the shape. -/
theorem leadsToAtomic_of_within {depth : Nat} {expr target : Expr}
    (shape : coupling.Shape left right expr target)
    (within : left.isAtomicWithin depth expr = true) : LeadsToAtomic right target := by
  induction depth using Nat.strong_induction_on generalizing expr target with
  | h depth fewer =>
    have leads := Env.leadsToAtomic_of_isAtomicWithin within
    induction shape with
    | rule kinds _ =>
      cases leads with
      | rule forces =>
        refine .rule ?_
        unfold RuleKind.forcesAtomic at forces ⊢
        rwa [lawful.bodyAtomic false kinds] at forces
    | @ref name targets =>
      -- The name is looked up on both sides, and so it is defined on both.
      cases leads with
      | ref defined _ =>
        obtain ⟨less, lt, within⟩ := Env.isAtomicWithin_ref within defined
        rw [defined] at targets
        generalize also : right.rules.lookup name = other? at targets
        cases targets with
        | some exprs => exact .ref also (fewer less lt (lawful.shape exprs) within)
    | @lazy cell targets =>
      cases leads with
      | lazy resolved _ =>
        obtain ⟨less, lt, within⟩ := Env.isAtomicWithin_lazy within resolved
        rw [resolved] at targets
        generalize also : right.definitions.resolve cell = other at targets
        cases targets with
        | ok exprs => exact .lazy also (fewer less lt (lawful.shape exprs) within)
    | leftRef defined shape _ =>
      obtain ⟨less, lt, within⟩ := Env.isAtomicWithin_ref within defined
      exact fewer less lt shape within
    | rightRef defined _ ih => exact .ref defined (ih within leads)
    | leftLazy _ resolved shape _ =>
      obtain ⟨less, lt, within⟩ := Env.isAtomicWithin_lazy within resolved
      exact fewer less lt shape within
    | rightLazy _ resolved _ ih => exact .lazy resolved (ih within leads)
    | _ => cases leads

theorem isAtomic_eq {expr target : Expr} (exprs : coupling.exprs expr target) :
    left.isAtomic expr = right.isAtomic target := by
  have shape := lawful.shape exprs
  have onward : left.isAtomic expr = true → right.isAtomic target = true := fun within =>
    Env.isAtomic_iff.mpr (lawful.leadsToAtomic_of_within shape within)
  have back : right.isAtomic target = true → left.isAtomic expr = true := fun within =>
    Env.isAtomic_iff.mpr (lawful.flip.leadsToAtomic_of_within shape.flip within)
  exact Bool.eq_iff_iff.mpr ⟨onward, back⟩

end Coupling.Lawful

/-! ### The machine -/

namespace Coupling.Lawful

variable {coupling : Coupling} {left right : Env} (lawful : coupling.Lawful left right)

include lawful

theorem run_follows {expr target : Expr} {here there : Position} (fuel : Nat) (atomic : Bool)
    (shape : coupling.Shape left right expr target) (places : coupling.places here there) :
    Action.Follows coupling coupling.Results (run left fuel expr here atomic) fun fuel =>
      run right fuel target there atomic := by
  intro before also states
  by_cases endless : run left fuel expr here atomic before = .exhausted
  · exact .inl endless
  obtain ⟨level, same⟩ := Machine.eval_of_run endless
  rcases lawful.eval_follows level atomic shape places before also states with
    never | excused | ⟨outcome, ends, enough, reached⟩
  · exact absurd (same.symm.trans never) endless
  · exact .inr (.inl (same ▸ excused))
  · -- The evaluation on the other side comes to an end, and so does the machine.
    have ran : eval right enough target there atomic also = outcome :=
      reached enough (Nat.le_refl _)
    have finished : outcome ≠ .exhausted :=
      ends.elim Coupling.Excuses.ne_exhausted Coupling.Ends.right_ne
    obtain ⟨moves, equal⟩ := Machine.run_of_eval (ran ▸ finished)
    refine .inr (.inr ⟨outcome, same ▸ ends, moves, fun more le => ?_⟩)
    rcases run_approximates right target le there atomic also with never | settled
    · rw [equal, ran] at never
      exact absurd never finished
    · exact settled.trans (equal.trans ran)

/-- Two machines on corresponding expressions end together, if the same is looked up. -/
theorem run_together (must : coupling.sameLookups) {expr target : Expr} {here there : Position}
    {before also : State} (atomic : Bool) (exprs : coupling.exprs expr target)
    (places : coupling.places here there) (states : coupling.States before also) :
    EndTogether (coupling.Ends coupling.Results) (run left · expr here atomic before)
      (run right · target there atomic also) := by
  have shape := lawful.shape exprs
  exact endTogether_of_follows (fun fuel => lawful.run_follows fuel atomic shape places)
    (fun fuel => lawful.flip.run_follows fuel atomic shape.flip places)
    (fun le => run_approximates right target le there atomic) states must

end Coupling.Lawful

/-! ### Parses -/

/-- Results of parses that correspond: matches, or reports of failures that trackers hold which
correspond. -/
inductive Coupling.Parses (coupling : Coupling) (left right : Env) : Parsed → Parsed → Prop
  | ok {found matched : Match} :
      coupling.Matches found matched → Parses coupling left right (.ok found) (.ok matched)
  | error {held other : Tracker} :
      coupling.trackers held other →
      Parses coupling left right (.error (held.report left.input))
        (.error (other.report right.input))

namespace Coupling.Lawful

variable {coupling : Coupling} {left right : Env} (lawful : coupling.Lawful left right)

theorem reportFailure_coupled :
    Coupled coupling (coupling.Parses left right) (reportFailure left) (reportFailure right) := by
  intro before also states
  obtain ⟨trace, reported⟩ := reportFailure_eq left before
  obtain ⟨events, repeated⟩ := reportFailure_eq right also
  rw [reported, repeated]
  exact .done (.error states.tracker) ⟨states.stack, states.tracker, states.forced⟩

variable {expr target : Expr} (exprs : coupling.exprs expr target)
  (starts : coupling.places (.start left.input) (.start right.input))

include lawful exprs

theorem matchRest_follows {here there : Position} (fuel : Nat)
    (places : coupling.places here there) :
    Action.Follows coupling coupling.places (matchRest left fuel expr here) fun fuel =>
      matchRest right fuel target there := by
  simp only [matchRest, lawful.isAtomic_eq exprs]
  split
  · exact .pure places
  · exact .bind (lawful.run_follows fuel false .ignored places) fun _ _ results =>
      .pure (afterGap places results)

include starts

theorem parsePartial_follows (fuel : Nat) :
    Action.Follows coupling (coupling.Parses left right) (parsePartial left fuel expr) fun fuel =>
      parsePartial right fuel target := by
  refine .bind (lawful.run_follows fuel false (lawful.shape exprs) starts)
    fun result also results => ?_
  cases results with
  | some same => exact .pure (.ok same)
  | none => exact reportFailure_coupled.follows

theorem parse_follows (allowed : coupling.terminals .endOfInput) (fuel : Nat) :
    Action.Follows coupling (coupling.Parses left right) (parse left fuel expr) fun fuel =>
      parse right fuel target := by
  refine .bind (lawful.parsePartial_follows exprs starts fuel) fun parsed also results => ?_
  cases results with
  | error trackers => exact .pure (.error trackers)
  | ok same =>
    refine .bind (lawful.matchRest_follows exprs fuel same.stop) fun stop there places => ?_
    refine .bind (lawful.run_follows fuel false (.terminal allowed) places)
      fun result also results => ?_
    cases results with
    | some _ => exact .pure (.ok ⟨places, same.node⟩)
    | none => exact reportFailure_coupled.follows

variable (allowed : coupling.terminals .endOfInput) {before also : State}
  (states : coupling.States before also)

include allowed states

/-- Two parses of corresponding expressions end together, if the same is looked up. -/
theorem parses_together (must : coupling.sameLookups) :
    EndTogether (coupling.Ends (coupling.Parses left right)) (parse left · expr before)
        (parse right · target also) ∧
      EndTogether (coupling.Ends (coupling.Parses left right)) (parsePartial left · expr before)
        (parsePartial right · target also) := by
  constructor
  · exact endTogether_of_follows (lawful.parse_follows exprs starts allowed)
      (lawful.flip.parse_follows exprs starts allowed)
      (fun le => parse_approximates right target le) states must
  · exact endTogether_of_follows (lawful.parsePartial_follows exprs starts)
      (lawful.flip.parsePartial_follows exprs starts)
      (fun le => parsePartial_approximates right target le) states must

/-- In any case they end together as long as there are texts. -/
theorem parses_togetherUnlessEndless :
    EndTogetherUnlessEndless (coupling.Ends (coupling.Parses left right))
        (parse left · expr before) (parse right · target also) ∧
      EndTogetherUnlessEndless (coupling.Ends (coupling.Parses left right))
        (parsePartial left · expr before) (parsePartial right · target also) := by
  constructor
  · exact endTogetherUnlessEndless_of_follows (lawful.parse_follows exprs starts allowed)
      (lawful.flip.parse_follows exprs starts allowed)
      (fun le => parse_approximates right target le) states
  · exact endTogetherUnlessEndless_of_follows (lawful.parsePartial_follows exprs starts)
      (lawful.flip.parsePartial_follows exprs starts)
      (fun le => parsePartial_approximates right target le) states

end Coupling.Lawful

end Peg
