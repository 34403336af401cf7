import Peg.Engine.Parse
import Peg.Proofs.Tree.Building

/-!
# What is parsed

The machine matches what the recursive evaluation does, so that what it answers is put together in
the same way. A parse of the whole text adds what may follow the match: ignored text unless the root
is atomic, and then the end of the text.
-/
namespace Peg

open Peg.Action (Fulfils)

/-- The end of the input is only matched there. -/
theorem Tiled.atEnd {env : Env} {atomic : Bool} {here stop : Position} {node : Option Node}
    (tiled : Tiled env (.terminal .endOfInput) atomic here node stop) : here.atEnd = true := by
  cases tiled with
  | terminal attempted =>
    cases ended : here.atEnd with
    | true => rfl
    | false =>
      simp only [Terminal.attempt, ended] at attempted
      cases attempted

section Entries

variable {env : Env} {fits : Span → Prop}

theorem run_fulfils {input : Input} (admits : ∀ span : Span, span.Within input → fits span)
    (fuel : Nat) (expr : Expr) {start : Position} (atomic : Bool) (inside : start.input = input) :
    Fulfils (.matching False fits) (run env fuel expr start atomic)
      (Builds env expr atomic start) := by
  intro before kept
  by_cases endless : run env fuel expr start atomic before = .exhausted
  · rw [endless]
    exact id
  · -- Where the machine ends, the evaluation ends in the same way.
    obtain ⟨enough, same⟩ := Machine.eval_of_run endless
    rw [← same]
    exact eval_fulfils env admits enough expr start atomic inside before kept

theorem reportFailure_fulfils {holds : Parsed → Prop} (allowed : ∀ report, holds (.error report)) :
    Fulfils (.matching False fits) (reportFailure env) holds :=
  .bind (.gets _) fun report _ => .bind (.emit env _) fun _ _ => .pure (allowed report)

variable (admits : ∀ span : Span, span.Within env.input → fits span) (fuel : Nat) (expr : Expr)

include admits

theorem parsePartial_fulfils :
    Fulfils (.matching False fits) (parsePartial env fuel expr) fun parsed =>
      ∀ found, parsed = .ok found →
        Tiled env expr false (.start env.input) found.node found.stop := by
  refine .bind (run_fulfils admits fuel expr false rfl) fun result builds => ?_
  cases result with
  | none => exact reportFailure_fulfils fun _ => nofun
  | some found =>
    refine .pure ?_
    rintro _ ⟨⟩
    exact builds found rfl

theorem matchRest_fulfils {here : Position} (inside : here.input = env.input) :
    Fulfils (.matching False fits) (matchRest env fuel expr here)
      (Gap env (env.isAtomic expr) here) := by
  unfold matchRest
  split
  · exact .pure (.refl env _ here)
  next loose =>
    rw [Bool.eq_false_iff.mpr loose]
    refine .bind (run_fulfils admits fuel .ignored false inside) fun result builds => .pure ?_
    cases result with
    | none => exact .refl env false here
    | some found => exact (builds found rfl).gap

/-- A text that is parsed is a match, ignored text unless the root is atomic, and then its end. -/
theorem parse_fulfils :
    Fulfils (.matching False fits) (parse env fuel expr) fun parsed =>
      ∀ found, parsed = .ok found → ∃ middle,
        Tiled env expr false (.start env.input) found.node middle ∧
          Gap env (env.isAtomic expr) middle found.stop ∧
          found.stop.offset = env.input.size := by
  refine .bind (parsePartial_fulfils admits fuel expr) fun parsed matched => ?_
  cases parsed with
  | error report => exact .pure nofun
  | ok found =>
    have tiled := matched found rfl
    have reached : found.stop.input = env.input := tiled.precedes.input_eq
    refine .bind (matchRest_fulfils admits fuel expr reached) fun stop gap => ?_
    have onward := gap.ignorable.precedes.input_eq.trans reached
    refine .bind (run_fulfils admits fuel _ false onward) fun result ended => ?_
    cases result with
    | none => exact reportFailure_fulfils fun _ => nofun
    | some last =>
      have final : stop.atEnd = true := (ended last rfl).atEnd
      -- The answer is the match of the root, not that of the end.
      refine .pure ?_
      rintro _ ⟨⟩
      refine ⟨found.stop, tiled, gap, ?_⟩
      rw [Position.atEnd, beq_iff_eq, onward] at final
      exact final

end Entries

theorem tiled_of_parsePartial {env : Env} {fuel : Nat} {expr : Expr} {before after : State}
    {found : Match} (parsed : parsePartial env fuel expr before = .done (.ok found) after) :
    Tiled env expr false (.start env.input) found.node found.stop := by
  have admits : ∀ span : Span, span.Within env.input → True := fun _ _ => trivial
  have ended := parsePartial_fulfils admits fuel expr before fun _ _ => trivial
  rw [parsed] at ended
  exact ended.2 found rfl

theorem tiled_of_parse {env : Env} {fuel : Nat} {expr : Expr} {before after : State}
    {found : Match} (parsed : parse env fuel expr before = .done (.ok found) after) :
    ∃ middle, Tiled env expr false (.start env.input) found.node middle ∧
      Gap env (env.isAtomic expr) middle found.stop ∧ found.stop.offset = env.input.size := by
  have admits : ∀ span : Span, span.Within env.input → True := fun _ _ => trivial
  have ended := parse_fulfils admits fuel expr before fun _ _ => trivial
  rw [parsed] at ended
  exact ended.2 found rfl

theorem Finishes.tiled {env : Env} {expr : Expr} {start : Position} {atomic : Bool}
    {before after : State} {found : Match}
    (finishes : Finishes env expr start atomic before (some found) after) :
    Tiled env expr atomic start found.node found.stop := by
  obtain ⟨fuel, ended⟩ := finishes_iff_eval.mp finishes
  exact Builds.of_eval ended found rfl

end Peg
