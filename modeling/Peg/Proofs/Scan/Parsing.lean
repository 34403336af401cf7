import Peg.Proofs.Parse.Completion
import Peg.Proofs.Scan.Classes
import Peg.Proofs.Scan.Yields
import Mathlib.Data.List.TakeWhile

/-!
# Parses of whole texts

What matching takes of a text tells whether a parse of the whole text succeeds, namely if all that
is left of it is ignored.
-/
namespace Peg.Scan

variable {env : Env} {root skipper : Expr} {accept : Char → Bool} {input : List Char}
  {outcome : Option (List Char)}

/-- Only at its start all characters of the text are left. -/
theorem start_takes (atomic : Bool) :
    (expr env atomic (.terminal .startOfInput)).Takes env env.input.chars.toList (some []) := by
  refine (Eventually.above 0).succ fun fuel _ here action whole front ways => ?_
  have begins : here.atStart = true := by
    have inside := here.offset_le
    have length := congrArg List.length front
    rw [here.rest_length, Array.length_toList, ← whole, Input.size] at length
    rw [Input.size] at inside
    rw [Position.atStart, beq_iff_eq]
    omega
  rw [ways]
  simp only [eval, Terminal.attempt, begins, if_true]
  exact Stops.answer (.refl here) _ (.success (.refl here))

/-- The machine comes to the outcome that matching has. -/
theorem Takes.finishes {atomic : Bool} (takes : (expr env atomic root).Takes env input outcome)
    {here : Position} (whole : here.input = env.input) (front : here.rest = input)
    (before : State) : ∃ result after, Finishes env root here atomic before result after ∧
      here.Reaches (result.map Match.stop) outcome := by
  obtain ⟨fuel, stops⟩ := takes
  have stops := stops fuel (Nat.le_refl fuel) here _ whole front rfl
  obtain ⟨result, after, ended⟩ := stops.ends rfl before
  exact ⟨result, after, finishes_iff_eval.mpr ⟨fuel, ended⟩, stops.sound ended⟩

theorem atEnd_iff {here : Position} : here.atEnd = true ↔ here.rest = [] := by
  have inside := here.offset_le
  rw [Position.atEnd, beq_iff_eq, ← List.length_eq_zero_iff, here.rest_length]
  omega

section Whole

variable (single : env.skippers = [skipper]) (ignored : (expr env true skipper).TakesOne env accept)

include single ignored

/-- After a match the ignored text is skipped, and the text ends there if there is no other. -/
theorem exists_follows (loose : ¬LeadsToAtomic env root) {here : Position} (left : State)
    (whole : here.input = env.input) : ∃ stop, Follows env root left here stop ∧
      (stop.atEnd = true ↔ ∀ c ∈ here.rest, accept c = true) := by
  obtain ⟨result, after, finishes, reached⟩ :=
    (ignored_takes ignored single here.rest).finishes whole rfl
      { stack := left.stack, forced := left.forced }
  cases result with
  | none => cases reached
  | some gap =>
    obtain ⟨reads⟩ := reached
    refine ⟨gap.stop, .ignored loose finishes, ?_⟩
    have behind : gap.stop.rest = here.rest.dropWhile accept := by
      have split := reads.rest_eq
      nth_rewrite 1 [← List.takeWhile_append_dropWhile (p := accept) (l := here.rest)] at split
      exact (List.append_cancel_left split).symm
    rw [atEnd_iff, behind, List.dropWhile_eq_nil_iff]

/-- Where there is only one kind of ignored text, made of characters of a class, a parse of the
whole text comes to its end, and it succeeds if and only if the expression takes a part of the text
after which there are only such characters. -/
theorem parse_succeeds_iff (loose : ¬LeadsToAtomic env root)
    (takes : (expr env false root).Takes env env.input.chars.toList outcome)
    (forced : List LazyCell) : ∃ enough parsed,
      (∀ fuel, enough ≤ fuel → ∃ after, parse env fuel root { forced } = .done parsed after) ∧
        ((∃ found, parsed = .ok found) ↔ ∃ text rest, outcome = some text ∧
          (∀ c ∈ rest, accept c = true) ∧ env.input.chars.toList = text ++ rest) := by
  have begun : (Position.start env.input).rest = env.input.chars.toList := rfl
  obtain ⟨result, middle, ⟨fuel, ran⟩, reached⟩ := takes.finishes rfl begun { forced }
  cases result with
  | none =>
    -- The expression does not match, and that is reported.
    cases reached
    obtain ⟨trace, reported⟩ := reportFailure_eq env middle
    have missed : parsePartial env fuel root { forced } =
        .done (.error (middle.tracker.report env.input)) { middle with trace } :=
      (Action.bind_of_done ran).trans reported
    have ended := parse_of_not_ok fun found after matched => nomatch missed.symm.trans matched
    rw [missed] at ended
    refine ⟨fuel, _, fun more enough => ⟨_, (parse_approximates env root enough).eq_done ended⟩,
      nofun, ?_⟩
    rintro ⟨_, _, ⟨⟩, _⟩
  | some found =>
    obtain ⟨reads⟩ := reached
    have matched : parsePartial env fuel root { forced } = .done (.ok found) middle :=
      Action.bind_of_done ran
    -- It matches, and all depends on whether the ignored text after it is the rest.
    obtain ⟨stop, follows, ends⟩ :=
      exists_follows single ignored loose middle reads.input_eq
    obtain ⟨enough, parsed, after, ended, whole, beyond⟩ :=
      parse_of_follows (.refl _) matched follows
    refine ⟨enough, parsed, fun fuel le => ⟨after, ended fuel le⟩, ?_, ?_⟩
    · rintro ⟨final, rfl⟩
      cases there : stop.atEnd with
      | true => exact ⟨_, _, rfl, ends.mp there, reads.rest_eq⟩
      | false =>
        obtain ⟨report, impossible, _⟩ := beyond there
        cases impossible
    · rintro ⟨text, rest, ⟨⟩, all, front⟩
      have left : found.stop.rest = rest := List.append_cancel_left (reads.rest_eq.symm.trans front)
      exact ⟨_, whole (ends.mpr (left ▸ all))⟩

/-- What is yielded from a text is the tree of a parse, if all that follows the text is ignored. -/
theorem Yields.parses {text rest : List Char} {good : Node → Prop}
    (yields : Yields env false root text rest good) (loose : ¬LeadsToAtomic env root)
    (whole : env.input.chars.toList = text ++ rest) (all : ∀ c ∈ rest, accept c = true)
    (forced : List LazyCell) : ∃ enough, ∀ fuel, enough ≤ fuel → ∃ found node after,
      parse env fuel root { forced } = .done (.ok found) after ∧ found.node = some node ∧
        good node := by
  have begun : (Position.start env.input).rest = text ++ rest := whole
  obtain ⟨stop, reads, left⟩ := Position.exists_reads begun
  obtain ⟨least, answers⟩ := yields
  have meets := answers least (Nat.le_refl least) _ stop rfl reads left
  obtain ⟨_, middle, ended⟩ := meets.ends rfl { forced }
  obtain ⟨node, rfl, fine⟩ := meets.sound ended
  obtain ⟨moves, ran⟩ := finishes_iff_eval.mpr ⟨least, ended⟩
  have matched : parsePartial env moves root { forced } = .done (.ok ⟨stop, some node⟩) middle :=
    Action.bind_of_done ran
  obtain ⟨final, follows, ends⟩ :=
    exists_follows single ignored loose middle reads.input_eq
  obtain ⟨enough, parsed, after, parses, succeeds, _⟩ :=
    parse_of_follows (.refl _) matched follows
  cases succeeds (ends.mpr (left ▸ all))
  exact ⟨enough, fun fuel le => ⟨_, node, after, parses fuel le, rfl, fine⟩⟩

end Whole

end Peg.Scan
