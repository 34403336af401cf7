import Peg.Proofs.Machine.Endings
import Peg.Proofs.Tree.Entries

/-!
# Positions and spans are valid

A match never goes back and never leaves the text, its node covers exactly what was matched, and
what is put on the stack is a part of the text. So no position and no span that matching asks for is
ever refused.

The contract of matching says all of this with the condition on spans left open. For the stack the
condition is to lie within the text; for the rest nothing has to be known of the stack.
-/
namespace Peg

open Peg.Action (Fulfils)

section Validity

variable {env : Env} {expr : Expr} {start : Position} {atomic : Bool} {before after : State}

/-- Spans of a text on the stack stay spans of that text, however matching ends. -/
theorem Leaves.items_within (leaves : Leaves env expr start atomic before after)
    (kept : ∀ span ∈ before.stack.items, span.Within start.input) :
    ∀ span ∈ after.stack.items, span.Within start.input := by
  obtain ⟨moves, ran⟩ := leaves
  have fulfils : Fulfils (.matching False (Span.Within · start.input))
      (run env moves expr start atomic) (Builds env expr atomic start) :=
    run_fulfils (fun _ inside => inside) moves expr atomic rfl
  have ended := fulfils before kept
  cases outcome : run env moves expr start atomic before with
  | done result state | fault cause state =>
    rw [outcome] at ended ran
    cases ran
    exact ended.1
  | exhausted =>
    rw [outcome] at ran
    cases ran

/-- What an action that keeps the contract is broken off by is no refusal of a position. -/
theorem Action.Fulfils.ne_position {α : Type} {action : Action α} {holds : α → Prop}
    (fulfils : Fulfils (.matching False fun _ => True) action holds) (error : PositionError) :
    action before ≠ .fault (.position error) after := by
  intro broken
  have ended := fulfils before fun _ _ => trivial
  rw [broken] at ended
  exact ended.2 error rfl

end Validity

/-- Wherever and however an expression is matched: a match ends in the same text, not before its
start and not beyond the end of the text, and its node has exactly the span in between; if the stack
held spans of the text only, it does so afterwards; and neither matching nor a parse is ever broken
off because a position or a span cannot be made. -/
theorem positions_and_spans_are_valid (env : Env) (expr : Expr) (start : Position) (atomic : Bool)
    (before : State) :
    (∀ found after, Finishes env expr start atomic before (some found) after →
        found.stop.input = start.input ∧ start.offset ≤ found.stop.offset ∧
          found.stop.offset ≤ start.input.size ∧
          ∀ node, found.node = some node → node.span.source = start.input ∧
            node.span.start = start.offset ∧ node.span.stop = found.stop.offset) ∧
      ((∀ span ∈ before.stack.items, span.Within start.input) →
        ∀ after, Leaves env expr start atomic before after →
          ∀ span ∈ after.stack.items, span.Within start.input) ∧
      (∀ error after, ¬Breaks env expr start atomic before (.position error) after) ∧
      ∀ fuel error after, parse env fuel expr before ≠ .fault (.position error) after ∧
        parsePartial env fuel expr before ≠ .fault (.position error) after := by
  -- But for the stack nothing has to be known of the spans on it.
  have anySpan : ∀ {input : Input} (span : Span), span.Within input → True :=
    fun _ _ => trivial
  refine ⟨?_, ?_, ?_, ?_⟩
  · intro found after finishes
    have tiled := finishes.tiled
    have ordered := tiled.precedes
    refine ⟨ordered.input_eq, ordered.offset_le, ?_, fun node present => ?_⟩
    · rw [← ordered.input_eq]
      exact found.stop.offset_le
    · have covers := tiled.covers present
      exact ⟨covers.source_eq, covers.start_eq, covers.stop_eq⟩
  · exact fun kept after leaves => leaves.items_within kept
  · rintro error after ⟨moves, broken⟩
    exact (run_fulfils anySpan moves expr atomic rfl).ne_position error broken
  · intro fuel error after
    exact ⟨(parse_fulfils anySpan fuel expr).ne_position error,
      (parsePartial_fulfils anySpan fuel expr).ne_position error⟩

/-- A letter that is put on the stack is a part of the text. -/
theorem pushed_letter_within :
    ∃ after span, Leaves { input := ⟨0, #['a', 'b']⟩ } (.push (.literal "a"))
        (.start ⟨0, #['a', 'b']⟩) false {} after ∧ after.stack.items = [span] ∧
      span.Within ⟨0, #['a', 'b']⟩ := by
  have leaves : Leaves { input := ⟨0, #['a', 'b']⟩ } (.push (.literal "a"))
      (.start ⟨0, #['a', 'b']⟩) false {} _ := ⟨4, rfl⟩
  have valid := positions_and_spans_are_valid { input := ⟨0, #['a', 'b']⟩ } (.push (.literal "a"))
    (.start ⟨0, #['a', 'b']⟩) false {}
  have within := valid.2.1 nofun _ leaves
  exact ⟨_, _, leaves, rfl, within _ (List.mem_singleton_self _)⟩

end Peg
