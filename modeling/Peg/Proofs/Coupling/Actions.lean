import Peg.Proofs.Action.Simulation
import Peg.Proofs.Eval.Hereditary
import Peg.Proofs.Natural.Adequacy
import Peg.Proofs.Stack.Pairing

/-!
# Two runs side by side

A coupling says what corresponds to what where two runs are compared that need not be of the same
text nor of the same expression: places, spans, nodes, trackers and so on. Two actions are coupled
if from states that correspond both come to an end, with values and in states that correspond.

What runs on fuel is compared in one direction at a time. A family of actions, one for each amount
of fuel, follows an action if it ends as that one does, given enough fuel, whenever that one ends at
all. How much fuel it takes is left open, so that one side may take steps that the other does not.

Where the sides need not look up the same, an expression may have a text on one side and none on the
other. So whatever is broken off for want of a text, on either side, is excused there.
-/
namespace Peg

open List (Forall₂)

/-- What corresponds to what where two runs are compared. -/
structure Coupling where
  /-- The places that correspond. -/
  places : Position → Position → Prop
  /-- The spans that correspond. -/
  spans : Span → Span → Prop
  /-- The results that correspond, where ignored text has no node. -/
  nodes : Option Node → Option Node → Prop
  /-- The trackers that correspond. -/
  trackers : Tracker → Tracker → Prop
  /-- The faults that correspond. -/
  faults : Fault → Fault → Prop
  /-- The kinds that a rule of a name may have on the two sides. -/
  kinds : String → RuleKind → RuleKind → Prop
  /-- The terminals that may be matched. -/
  terminals : Terminal → Prop
  /-- The expressions that correspond. -/
  exprs : Expr → Expr → Prop
  /-- Whether both sides have to look up the same lazy expressions. -/
  sameLookups : Prop

namespace Coupling

variable (coupling : Coupling)

/-- States that correspond. Their traces need not. -/
structure States (left right : State) : Prop where
  stack : left.stack.Paired coupling.spans right.stack
  tracker : coupling.trackers left.tracker right.tracker
  forced : coupling.sameLookups → left.forced = right.forced

/-- Matches that correspond. -/
structure Matches (left right : Match) : Prop where
  stop : coupling.places left.stop right.stop
  node : coupling.nodes left.node right.node

/-- Results that correspond: matches on both sides, or on neither. -/
abbrev Results : Option Match → Option Match → Prop := Option.Rel coupling.Matches

/-- Ends that correspond: with values, or by faults, and in states that do. -/
inductive Ends {α β : Type} (values : α → β → Prop) : Outcome α → Outcome β → Prop
  | done {left : α} {right : β} {after also : State} :
      values left right → coupling.States after also →
      Ends values (.done left after) (.done right also)
  | fault {left right : Fault} {after also : State} :
      coupling.faults left right → coupling.States after also →
      Ends values (.fault left after) (.fault right also)

/-- What is not held against the sides where they need not look up the same: that an expression was
to be shown which has no text. -/
def Excuses {α : Type} (outcome : Outcome α) : Prop := ¬coupling.sameLookups ∧ outcome.Endless

end Coupling

variable {α β γ δ : Type} {coupling : Coupling} {values : α → β → Prop} {later : γ → δ → Prop}

namespace Coupling.Ends

theorem right_ne {left : Outcome α} {right : Outcome β} (ends : coupling.Ends values left right) :
    right ≠ .exhausted := by
  cases ends with
  | done | fault => exact nofun

theorem mono {weaker : α → β → Prop} {left : Outcome α} {right : Outcome β}
    (ends : coupling.Ends values left right)
    (weaken : ∀ value other, values value other → weaker value other) :
    coupling.Ends weaker left right := by
  cases ends with
  | done value states => exact .done (weaken _ _ value) states
  | fault cause states => exact .fault cause states

end Coupling.Ends

theorem Coupling.Excuses.bind {first : Action α} {next : α → Action γ} {state : State}
    (excused : coupling.Excuses (first state)) : coupling.Excuses ((first >>= next) state) :=
  ⟨excused.1, Action.bind_endless excused.2⟩

/-- From states that correspond, both actions come to ends that correspond. -/
def Action.Coupled (coupling : Coupling) (values : α → β → Prop) (first : Action α)
    (second : Action β) : Prop :=
  ∀ left right, coupling.States left right → coupling.Ends values (first left) (second right)

/-- From states that correspond, if the action comes to an end, then the family does so with enough
fuel, and the ends correspond, unless one of them is excused. -/
def Action.Follows (coupling : Coupling) (values : α → β → Prop) (first : Action α)
    (second : Nat → Action β) : Prop :=
  ∀ left right, coupling.States left right →
    first left = .exhausted ∨ coupling.Excuses (first left) ∨
      ∃ outcome, (coupling.Excuses outcome ∨ coupling.Ends values (first left) outcome) ∧
        Eventually fun fuel => second fuel right = outcome

/-! ### Coupled actions -/

namespace Action.Coupled

theorem pure {value : α} {other : β} (same : values value other) :
    Coupled coupling values (Pure.pure value) (Pure.pure other) :=
  fun _ _ states => .done same states

theorem fail {cause other : Fault} (same : coupling.faults cause other) :
    Coupled coupling values (Action.fail cause) (Action.fail other) :=
  fun _ _ states => .fault same states

theorem gets {read : State → α} {other : State → β}
    (same : ∀ {left right}, coupling.States left right → values (read left) (other right)) :
    Coupled coupling values (Action.gets read) (Action.gets other) :=
  fun _ _ states => .done (same states) states

theorem modify {change other : State → State}
    (kept : ∀ {left right}, coupling.States left right →
      coupling.States (change left) (other right)) :
    Coupled coupling Eq (Action.modify change) (Action.modify other) :=
  fun _ _ states => .done rfl (kept states)

theorem track {change other : Tracker → Tracker}
    (kept : ∀ {left right}, coupling.trackers left right →
      coupling.trackers (change left) (other right)) :
    Coupled coupling Eq (Action.track change) (Action.track other) :=
  modify fun states => ⟨states.stack, kept states.tracker, states.forced⟩

theorem mono {weaker : α → β → Prop} {first : Action α} {second : Action β}
    (coupled : Coupled coupling values first second)
    (weaken : ∀ value other, values value other → weaker value other) :
    Coupled coupling weaker first second :=
  fun _ _ states => (coupled _ _ states).mono weaken

theorem bind {first : Action α} {second : Action β} {next : α → Action γ} {other : β → Action δ}
    (early : Coupled coupling values first second)
    (late : ∀ value also, values value also → Coupled coupling later (next value) (other also)) :
    Coupled coupling later (first >>= next) (second >>= other) := by
  intro left right states
  have began := early left right states
  generalize reached : first left = outcome at began
  generalize met : second right = also at began
  cases began with
  | done value middle =>
    rw [bind_of_done reached, bind_of_done met]
    exact late _ _ value _ _ middle
  | fault cause after =>
    rw [bind_of_fault reached, bind_of_fault met]
    exact .fault cause after

theorem ofExcept {ε : Type} {fault : ε → Fault} {result : Except ε α} {other : Except ε β}
    (faults : ∀ cause, coupling.faults cause cause) (same : AnswersAlike values result other) :
    Coupled coupling values (Action.ofExcept fault result) (Action.ofExcept fault other) := by
  cases same with
  | ok value => exact pure value
  | error error => exact fail (faults _)

/-- What may be done to the trace does not matter. -/
theorem emit (env other : Env) (event also : TraceEvent) :
    Coupled coupling Eq (Action.emit env event) (Action.emit other also) := by
  intro left right states
  unfold Action.emit
  split <;> split <;> exact .done rfl ⟨states.stack, states.tracker, states.forced⟩

theorem changeItems {change other : Stack Span → Stack Span}
    (kept : ∀ {left right : Stack Span}, left.Paired coupling.spans right →
      (change left).Paired coupling.spans (other right)) :
    Coupled coupling Eq (Action.changeItems change) (Action.changeItems other) :=
  modify fun states => ⟨kept states.stack, states.tracker, states.forced⟩

theorem changeStack {change : Stack Span → Except StackError (Stack Span)}
    (faults : ∀ cause, coupling.faults cause cause)
    (kept : ∀ {left right : Stack Span}, left.Paired coupling.spans right →
      AnswersAlike (Stack.Paired coupling.spans) (change left) (change right)) :
    Coupled coupling Eq (Action.changeStack change) (Action.changeStack change) := by
  refine bind (gets fun states => states.stack) fun stack also matching => ?_
  refine bind (ofExcept faults (kept matching)) fun changed _ paired => ?_
  exact modify fun states => ⟨paired, states.tracker, states.forced⟩

theorem settle {keep : Option Match → Bool} {result other : Option Match}
    (faults : ∀ cause, coupling.faults cause cause) (alike : keep result = keep other) :
    Coupled coupling Eq (Action.settle keep result) (Action.settle keep other) := by
  unfold Action.settle
  rw [alike]
  split
  · exact changeStack faults Stack.Paired.commit
  · exact changeStack faults Stack.Paired.restore

/-- What always ends ends with any fuel. -/
theorem follows {first : Action α} {second : Action β}
    (coupled : Coupled coupling values first second) :
    Follows coupling values first fun _ => second :=
  fun left right states =>
    .inr (.inr ⟨second right, .inr (coupled left right states), 0, fun _ _ => rfl⟩)

end Action.Coupled

/-! ### Families that follow -/

namespace Action.Follows

theorem exhausted {second : Nat → Action β} :
    Follows coupling values (Action.exhausted : Action α) second := fun _ _ _ => .inl rfl

theorem pure {value : α} {other : β} (same : values value other) :
    Follows coupling values (Pure.pure value) fun _ => Pure.pure other :=
  (Coupled.pure same).follows

theorem bind {first : Action α} {second : Nat → Action β} {next : α → Action γ}
    {other : Nat → β → Action δ} (early : Follows coupling values first second)
    (late : ∀ value also, values value also →
      Follows coupling later (next value) fun fuel => other fuel also) :
    Follows coupling later (first >>= next) fun fuel => second fuel >>= other fuel := by
  intro left right states
  rcases early left right states with endless | excused | ⟨outcome, excused | ends, followed⟩
  · exact .inl (bind_of_exhausted endless)
  · exact .inr (.inl excused.bind)
  · obtain ⟨free, after, rfl⟩ := excused
    refine .inr (.inr ⟨_, .inl ⟨free, after, rfl⟩, followed.mono fun fuel broken => ?_⟩)
    exact bind_of_fault broken
  generalize reached : first left = began at ends
  cases ends with
  | done value middle =>
    rw [bind_of_done reached]
    rcases late _ _ value _ _ middle with endless | excused | ⟨outcome, ends, also⟩
    · exact .inl endless
    · exact .inr (.inl excused)
    · refine .inr (.inr ⟨outcome, ends, (followed.and also).mono fun fuel both => ?_⟩)
      exact (bind_of_done both.1).trans both.2
  | fault cause after =>
    rw [bind_of_fault reached]
    refine .inr (.inr ⟨_, .inr (.fault cause after), followed.mono fun fuel broken => ?_⟩)
    exact bind_of_fault broken

/-- One family follows if another one does to which its ends can be led back. -/
theorem lead {first : Action α} {second other : Nat → Action β}
    (follows : Follows coupling values first other)
    (leads : ∀ {state : State} {outcome : Outcome β},
      (Eventually fun fuel => other fuel state = outcome) →
        Eventually fun fuel => second fuel state = outcome) :
    Follows coupling values first second := by
  intro left right states
  rcases follows left right states with endless | excused | ⟨outcome, ends, followed⟩
  · exact .inl endless
  · exact .inr (.inl excused)
  · exact .inr (.inr ⟨outcome, ends, leads followed⟩)

theorem congr {first : Action α} {second other : Nat → Action β}
    (follows : Follows coupling values first other)
    (same : Eventually fun fuel => second fuel = other fuel) :
    Follows coupling values first second :=
  follows.lead fun followed => (same.and followed).mono fun fuel both => by rw [both.1, both.2]

/-- A family that does nothing with its first unit of fuel. -/
theorem succ {first : Action α} {second other : Nat → Action β}
    (follows : Follows coupling values first other)
    (same : ∀ fuel, second (fuel + 1) = other fuel) : Follows coupling values first second :=
  follows.lead fun followed => followed.succ fun fuel reached => by rw [same, reached]

/-- A loop that has fuel left for one more round. -/
theorem round {first : Action α} (second : Nat → Nat → Action β) {spent : Nat}
    (follows : Follows coupling values first fun fuel => second fuel (fuel - (spent + 1) + 1)) :
    Follows coupling values first fun fuel => second fuel (fuel - spent) := by
  refine congr follows ((Eventually.above spent).mono fun fuel more => ?_)
  have left : fuel - spent = fuel - (spent + 1) + 1 := by omega
  rw [left]

theorem transaction {body : Action (Option Match)} {other : Nat → Action (Option Match)}
    {keep : Option Match → Bool} (faults : ∀ cause, coupling.faults cause cause)
    (alike : ∀ result also, coupling.Results result also → keep result = keep also)
    (inner : Follows coupling coupling.Results body other) :
    Follows coupling coupling.Results (Action.transaction keep body) fun fuel =>
      Action.transaction keep (other fuel) := by
  refine bind (Coupled.changeItems Stack.Paired.snapshot).follows fun _ _ _ => ?_
  refine bind inner fun result also results => ?_
  exact bind (Coupled.settle faults (alike result also results)).follows fun _ _ _ => pure results

end Action.Follows

end Peg
