import Peg.Proofs.Equivalence.Rewriting

/-!
# Matching that leaves the stack alone

An expression that contains nothing that works on the stack cannot tell one stack from another. What
it comes to is the same whatever items there are, and it leaves the items as it found them. Parts
that are taken back, and lookaheads, take back nothing here.

The proof goes through the rules by which fates are derived: each of them can be applied to other
items as well. The text to be ignored has to be free of the stack, too, as it is skipped between the
parts.
-/
namespace Peg

/-! ### Expressions without the stack -/

/-- The expression itself neither looks at the stack nor changes it. -/
def Expr.SparesStack : Expr → Prop
  | .terminal leaf => leaf.usesStack = false
  | .push _ => False
  | _ => True

/-- Nothing that the expression contains works on the stack. -/
def Stackless (env : Env) (expr : Expr) : Prop := Throughout env Expr.SparesStack expr

/-- Nothing that the task asks for works on the stack. -/
def Task.Stackless (env : Env) : Task → Prop
  | .expr whole _ _ => Peg.Stackless env whole
  | .gap .. => True
  | .items rest .. | .alternatives rest .. | .skip rest .. => ∀ part ∈ rest, Peg.Stackless env part
  | .loop body .. => Peg.Stackless env body

/-! ### Terminals -/

/-- States whose stacks hold these items. -/
structure State.Hold (items other : List Span) (left right : State) : Prop where
  left : left.stack.items = items
  right : right.stack.items = other

namespace Terminal

open Peg.Action (Simulates)

variable (items other : List Span) (here : Position)

theorem missed_holds (failure : Failure) (offset : Nat) :
    Simulates (State.Hold items other) (missed failure offset) :=
  .bind (.modify fun states => ⟨states.left, states.right⟩) fun _ => .pure none

theorem found_holds (kind : TerminalKind) (stop : Position) (value : String) :
    Simulates (State.Hold items other) (found kind here stop value) :=
  .bind (.ofExcept .position _) fun _ => .pure _

theorem foundText_holds (kind : TerminalKind) (stop : Position) :
    Simulates (State.Hold items other) (foundText kind here stop) :=
  .bind (.ofExcept .position _) fun _ => .pure _

theorem matchLineEnding_holds (endings : List (String × String)) :
    Simulates (State.Hold items other) (matchLineEnding here endings) := by
  induction endings with
  | nil => exact missed_holds items other _ _
  | cons ending rest ih =>
    obtain ⟨text, name⟩ := ending
    unfold matchLineEnding
    split
    · exact found_holds items other here _ _ _
    · exact ih

theorem missAll_holds (offset : Nat) (texts : List String) :
    Simulates (State.Hold items other) (missAll offset texts) := by
  induction texts with
  | nil => exact .pure none
  | cons text rest ih =>
    exact .bind (.modify fun states => ⟨states.left, states.right⟩) fun _ => ih

/-- A terminal that does not work on the stack is matched alike whatever the stack holds. -/
theorem attempt_holds {leaf : Terminal} (spares : leaf.usesStack = false) :
    Simulates (State.Hold items other) (leaf.attempt here) := by
  cases leaf with
  | literal | insensitive | charRange | any | startOfInput | endOfInput =>
    simp only [attempt]
    split
    · exact found_holds items other here _ _ _
    · exact missed_holds items other _ _
  | newline => exact matchLineEnding_holds items other here _
  | skipUntil first rest =>
    simp only [attempt]
    split
    · exact foundText_holds items other here _ _
    · exact missAll_holds items other _ _
  | skipChars count =>
    refine .bind (.ofExcept .position _) fun stop => ?_
    cases stop with
    | none => exact missed_holds items other _ _
    | some stop => exact foundText_holds items other here _ _
  | alwaysFail => exact .pure none
  | empty => exact found_holds items other here _ _ _
  | peek | pop | peekAll | popAll | peekSlice | drop => cases spares

end Terminal

/-! ### Fates -/

namespace Fate

/-- The items that a fate leaves. -/
def items : Fate → List Span
  | matched _ items | failed items | broken _ items => items

/-- The same fate with other items. -/
def leaving (other : List Span) : Fate → Fate
  | matched stop _ => matched stop other
  | failed _ => failed other
  | broken cause _ => broken cause other

@[simp] theorem leaving_leaving (other last : List Span) (fate : Fate) :
    (fate.leaving other).leaving last = fate.leaving last := by
  cases fate <;> rfl

variable (other : List Span) (fate : Fate)

@[simp] theorem matches?_leaving : (fate.leaving other).matches? = fate.matches? := by
  cases fate <;> rfl

@[simp] theorem fails_leaving : (fate.leaving other).fails = fate.fails := by
  cases fate <;> rfl

variable (here : Position) (before : List Span)

/-! A fate that is made of another one leaves the items of that one, or those from before. -/

theorem optional_leaving : (fate.leaving other).optional here other =
    (fate.optional here before).leaving other := by
  cases fate <;> rfl

theorem positive_leaving : (fate.leaving other).positive here other =
    (fate.positive here before).leaving other := by
  cases fate <;> rfl

theorem negative_leaving : (fate.leaving other).negative here other =
    (fate.negative here before).leaving other := by
  cases fate <;> rfl

theorem restored_leaving : (fate.leaving other).restored other =
    (fate.restored before).leaving other := by
  cases fate <;> rfl

theorem repeated_leaving (min count : Nat) :
    repeated min count here other = (repeated min count here before).leaving other := by
  unfold repeated
  split <;> rfl

variable {other fate before} (kept : fate.items = before)

include kept

theorem items_optional : (fate.optional here before).items = before := by
  cases fate with
  | failed => rfl
  | matched | broken => exact kept

theorem items_positive : (fate.positive here before).items = before := by
  cases fate with
  | matched | failed => rfl
  | broken => exact kept

theorem items_negative : (fate.negative here before).items = before := by
  cases fate with
  | matched | failed => rfl
  | broken => exact kept

theorem items_restored : (fate.restored before).items = before := by
  cases fate with
  | failed => rfl
  | matched | broken => exact kept

omit kept

theorem items_repeated (min count : Nat) : (repeated min count here before).items = before := by
  unfold repeated
  split <;> rfl

end Fate

section Derivations

variable {env : Env}

theorem Outcome.fate_of_hold {items other : List Span} {left right : Outcome (Option Match)}
    (alike : left.Related (State.Hold items other) right) {fate : Fate}
    (comes : left.fate? = some fate) :
    fate.items = items ∧ right.fate? = some (fate.leaving other) := by
  cases alike with
  | done result states =>
    cases result with
    | none =>
      cases comes
      exact ⟨states.left, congrArg (some ∘ Fate.failed) states.right⟩
    | some found =>
      cases comes
      exact ⟨states.left, congrArg (some ∘ Fate.matched found.stop) states.right⟩
  | fault cause states =>
    cases comes
    exact ⟨states.left, congrArg (some ∘ Fate.broken cause) states.right⟩
  | exhausted => cases comes

/-- What is done without the stack leaves the items as they are, and comes to the same with others
instead. -/
theorem ComesTo.stackless (free : ∀ skipper ∈ env.skippers, Stackless env skipper) {task : Task}
    {items : List Span} {fate : Fate} (comes : ComesTo env task items fate) :
    task.Stackless env →
      fate.items = items ∧ ∀ other, ComesTo env task other (fate.leaving other) := by
  induction comes with
  | @terminal leaf here atomic items fate ends =>
    intro spares
    have alike (other : List Span) := leaf.attempt_holds items other here spares.self
      (.ofItems items) (.ofItems other) ⟨rfl, rfl⟩
    exact ⟨(Outcome.fate_of_hold (alike items) ends).1,
      fun other => .terminal (Outcome.fate_of_hold (alike other) ends).2⟩
  | seq _ ih =>
    intro spares
    obtain ⟨kept, also⟩ := ih fun part among => spares.part (.seq among)
    exact ⟨kept, fun other => .seq (also other)⟩
  | choice _ ih =>
    intro spares
    obtain ⟨kept, also⟩ := ih fun part among => spares.part (.choice among)
    exact ⟨kept, fun other => .choice (also other)⟩
  | @opt body here atomic items inner fate _ same ih =>
    intro spares
    obtain ⟨kept, also⟩ := ih (spares.part .opt)
    subst same
    exact ⟨Fate.items_optional here kept,
      fun other => .opt (also other) (inner.optional_leaving other here items)⟩
  | rep _ ih =>
    intro spares
    obtain ⟨kept, also⟩ := ih (spares.part .rep)
    exact ⟨kept, fun other => .rep (also other)⟩
  | @positive body here atomic items inner fate _ same ih =>
    intro spares
    obtain ⟨kept, also⟩ := ih (spares.part .positive)
    subst same
    exact ⟨Fate.items_positive here kept,
      fun other => .positive (also other) (inner.positive_leaving other here items)⟩
  | @negative body here atomic items inner fate _ same ih =>
    intro spares
    obtain ⟨kept, also⟩ := ih (spares.part .negative)
    subst same
    exact ⟨Fate.items_negative here kept,
      fun other => .negative (also other) (inner.negative_leaving other here items)⟩
  | @restorable body here atomic items inner fate _ same ih =>
    intro spares
    obtain ⟨kept, also⟩ := ih (spares.part .restorable)
    subst same
    exact ⟨Fate.items_restored kept,
      fun other => .restorable (also other) (inner.restored_leaving other items)⟩
  | push => exact fun spares => spares.self.elim
  | rule _ ih =>
    intro spares
    obtain ⟨kept, also⟩ := ih (spares.part .rule)
    exact ⟨kept, fun other => .rule (also other)⟩
  | ref known _ ih =>
    intro spares
    obtain ⟨kept, also⟩ := ih (spares.part (.ref known))
    exact ⟨kept, fun other => .ref known (also other)⟩
  | refMissing missing => exact fun _ => ⟨rfl, fun _ => .refMissing missing⟩
  | lazy known _ ih =>
    intro spares
    obtain ⟨kept, also⟩ := ih (spares.part (.lazy known))
    exact ⟨kept, fun other => .lazy known (also other)⟩
  | lazyMissing missing => exact fun _ => ⟨rfl, fun _ => .lazyMissing missing⟩
  | ignoredAtomic => exact fun _ => ⟨rfl, fun _ => .ignoredAtomic⟩
  | ignored _ ih =>
    intro _
    obtain ⟨kept, also⟩ := ih free
    exact ⟨kept, fun other => .ignored (also other)⟩
  | pairFirst _ stopped ih =>
    intro spares
    obtain ⟨kept, also⟩ := ih (spares.part .pair)
    exact ⟨kept, fun other => .pairFirst (also other) (by simpa using stopped)⟩
  | pair _ _ first second =>
    intro spares
    obtain ⟨rfl, also⟩ := first (spares.part .pair)
    obtain ⟨kept, then_⟩ := second (spares.part .pair)
    exact ⟨kept, fun other => .pair (also other) (then_ other)⟩
  | abstract => exact fun _ => ⟨rfl, fun _ => .abstract⟩
  | gapNone => exact fun _ => ⟨rfl, fun _ => .gapNone⟩
  | gap _ ih =>
    intro _
    obtain ⟨kept, also⟩ := ih (.of_parts trivial nofun)
    exact ⟨kept, fun other => .gap (also other)⟩
  | itemsEnd => exact fun _ => ⟨rfl, fun _ => .itemsEnd⟩
  | itemsGap _ stopped gap =>
    intro _
    obtain ⟨kept, also⟩ := gap trivial
    exact ⟨kept, fun other => .itemsGap (also other) (by simpa using stopped)⟩
  | itemsStop _ _ stopped gap part =>
    intro spares
    obtain ⟨rfl, skipped⟩ := gap trivial
    obtain ⟨kept, also⟩ := part (spares _ List.mem_cons_self)
    exact ⟨kept, fun other => .itemsStop (skipped other) (also other) (by simpa using stopped)⟩
  | itemsMore _ _ _ gap part others =>
    intro spares
    obtain ⟨rfl, skipped⟩ := gap trivial
    obtain ⟨rfl, also⟩ := part (spares _ List.mem_cons_self)
    obtain ⟨kept, onward⟩ := others fun part among => spares part (List.mem_cons_of_mem _ among)
    exact ⟨kept, fun other => .itemsMore (skipped other) (also other) (onward other)⟩
  | alternativesEnd => exact fun _ => ⟨rfl, fun _ => .alternativesEnd⟩
  | alternativesFound _ found part =>
    intro spares
    obtain ⟨kept, also⟩ := part (spares _ List.mem_cons_self)
    exact ⟨kept, fun other => .alternativesFound (also other) (by simpa using found)⟩
  | alternativesMore _ _ part others =>
    intro spares
    obtain ⟨rfl, also⟩ := part (spares _ List.mem_cons_self)
    obtain ⟨kept, onward⟩ := others fun part among => spares part (List.mem_cons_of_mem _ among)
    exact ⟨kept, fun other => .alternativesMore (also other) (onward other)⟩
  | @loopFull body min max atomic count here items fate full same =>
    intro _
    subst same
    exact ⟨Fate.items_repeated here min count,
      fun other => .loopFull full (Fate.repeated_leaving other here items min count)⟩
  | loopGap room _ stopped gap =>
    intro _
    obtain ⟨kept, also⟩ := gap trivial
    exact ⟨kept, fun other => .loopGap room (also other) (by simpa using stopped)⟩
  | loopBroken room _ _ gap part =>
    intro spares
    obtain ⟨rfl, skipped⟩ := gap trivial
    obtain ⟨kept, also⟩ := part spares
    exact ⟨kept, fun other => .loopBroken room (skipped other) (also other)⟩
  | @loopEnd body min max atomic count here there items between after fate room _ _ same gap part =>
    intro spares
    obtain ⟨rfl, skipped⟩ := gap trivial
    obtain ⟨rfl, also⟩ := part spares
    subst same
    exact ⟨Fate.items_repeated there min count, fun other => .loopEnd room (skipped other)
      (also other) (Fate.repeated_leaving other there after min count)⟩
  | loopLimit room _ _ beyond gap part =>
    intro spares
    obtain ⟨rfl, skipped⟩ := gap trivial
    obtain ⟨kept, also⟩ := part spares
    exact ⟨kept, fun other => .loopLimit room (skipped other) (also other) beyond⟩
  | loopMore room _ _ within _ gap part others =>
    intro spares
    obtain ⟨rfl, skipped⟩ := gap trivial
    obtain ⟨rfl, also⟩ := part spares
    obtain ⟨kept, onward⟩ := others spares
    exact ⟨kept, fun other => .loopMore room (skipped other) (also other) within (onward other)⟩
  | skipEnd => exact fun _ => ⟨rfl, fun _ => .skipEnd⟩
  | skipAgain _ ih =>
    intro _
    obtain ⟨kept, also⟩ := ih free
    exact ⟨kept, fun other => .skipAgain (also other)⟩
  | skipBroken _ part =>
    intro spares
    obtain ⟨kept, also⟩ := part (spares _ List.mem_cons_self)
    exact ⟨kept, fun other => .skipBroken (also other)⟩
  | skipNone _ _ part others =>
    intro spares
    obtain ⟨rfl, also⟩ := part (spares _ List.mem_cons_self)
    obtain ⟨kept, onward⟩ := others fun part among => spares part (List.mem_cons_of_mem _ among)
    exact ⟨kept, fun other => .skipNone (also other) (onward other)⟩
  | skipStay _ stays _ part others =>
    intro spares
    obtain ⟨rfl, also⟩ := part (spares _ List.mem_cons_self)
    obtain ⟨kept, onward⟩ := others fun part among => spares part (List.mem_cons_of_mem _ among)
    exact ⟨kept, fun other => .skipStay (also other) stays (onward other)⟩
  | skipMore _ moves _ part others =>
    intro spares
    obtain ⟨rfl, also⟩ := part (spares _ List.mem_cons_self)
    obtain ⟨kept, onward⟩ := others spares
    exact ⟨kept, fun other => .skipMore (also other) moves (onward other)⟩

end Derivations

end Peg
