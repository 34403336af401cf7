import Peg.Proofs.Eval.Muting
import Peg.Proofs.Repetition.Unrolling

/-!
# What atomic matches are made of

A match of a sequence was put together from matches of its items, and a match of a repetition from
matches of its body in a row, behind which a further one failed. Where matching is atomic nothing is
skipped between them, so that the texts that they read make up the text of the whole.

## Main results

The matches of which an atomic match of a sequence, of an unlimited repetition and of a rule was put
together are found again, each in the state in which it was made.
-/
namespace Peg

variable {env : Env} {expr body : Expr} {here stop : Position} {before after : State}

/-- Matches of an expression in a row, each where the one before it ended and in the state that it
left. Each of them reads one of the texts. -/
inductive InARow (env : Env) (expr : Expr) :
    Position → State → List (List Char) → Position → State → Prop
  | nil (here : Position) (state : State) : InARow env expr here state [] here state
  | cons {here stop : Position} {before middle after : State} {item : Match} {text : List Char}
      {texts : List (List Char)} (first : Finishes env expr here true before (some item) middle)
      (reads : here.Reads text item.stop)
      (others : InARow env expr item.stop middle texts stop after) :
      InARow env expr here before (text :: texts) stop after

theorem Finishes.precedes {atomic : Bool} {item : Match}
    (finishes : Finishes env expr here atomic before (some item) after) :
    here.Precedes item.stop := by
  obtain ⟨fuel, ended⟩ := finishes_iff_eval.mp finishes
  exact precedes_of_eval env fuel expr here atomic ended

theorem InARow.reads {texts : List (List Char)}
    (row : InARow env expr here before texts stop after) : here.Reads texts.flatten stop := by
  induction row with
  | nil here => exact .refl here
  | cons _ reads _ ih => exact reads.trans ih

/-- A match that is answered over a span ends where it says, and nothing else is changed. -/
theorem Clause.match_eq_done {found : Match} {node : Span → Option Node}
    (ended : (Action.span here stop >>= fun span => pure (some ⟨stop, node span⟩)) before =
      .done (some found) after) : found.stop = stop ∧ after = before := by
  obtain ⟨span, middle, made, answered⟩ := Action.bind_eq_done ended
  cases answered
  exact ⟨rfl, Action.span_eq_done made⟩

/-! ### Sequences and repetitions -/

namespace Eval

variable {fuel : Nat} {start : Position} {found : Array (Option Node)} {last : Match}

/-- A sequence with items left went on with a match of the next one. -/
theorem items_cons_eq_done {rest : List Expr}
    (ended : items (eval env fuel) true start (expr :: rest) here found before =
      .done (some last) after) :
    ∃ item middle, Finishes env expr here true before (some item) middle ∧
      items (eval env fuel) true start rest item.stop (found.push item.node) middle =
        .done (some last) after := by
  rw [items, Bool.or_true, gapUnless, if_pos rfl, pure_bind] at ended
  obtain ⟨result, middle, first, goesOn⟩ := Action.bind_eq_done ended
  cases result with
  | none => cases goesOn
  | some item => exact ⟨item, middle, finishes_iff_eval.mpr ⟨fuel, first⟩, goesOn⟩

/-- An unlimited repetition went on with matches in a row, and a further one failed. -/
theorem row_of_repetition (unlimited : env.repeatLimit = none) {rounds : Nat}
    (ended : repetition env (eval env fuel) body 0 none true start rounds here found before =
      .done (some last) after) :
    ∃ texts middle, InARow env body here before texts last.stop middle ∧
      Finishes env body last.stop true middle none after := by
  induction rounds generalizing here found before with
  | zero => cases ended
  | succ rounds ih =>
    rw [repetition_of_room rfl, Bool.or_true, gapUnless, if_pos rfl, pure_bind, turn] at ended
    obtain ⟨result, middle, attempted, goesOn⟩ := Action.bind_eq_done ended
    have attempted := finishes_iff_eval.mpr ⟨fuel, attempted⟩
    cases result with
    | none =>
      obtain ⟨rfl, rfl⟩ := Clause.match_eq_done goesOn
      exact ⟨[], before, .nil last.stop before, attempted⟩
    | some item =>
      -- The rest of the row is what the rounds that are left add to it.
      dsimp only at goesOn
      rw [Clause.beyondLimit_of_unlimited unlimited] at goesOn
      obtain ⟨texts, between, row, failed⟩ := ih goesOn
      have reads := attempted.precedes.reads
      exact ⟨_, between, .cons attempted reads row, failed⟩

end Eval

/-! ### Rules -/

/-- The state in which the body of a rule is matched that is not silent. -/
def State.inRule (env : Env) (name : String) (here : Position) (before : State) : State :=
  { before with
    trace := if env.tracing then .entered name here.offset :: before.trace else before.trace
    tracker := before.tracker.enter (.rule name) }

section Rules

variable {atomic : Bool} {tag : Nat} {name : String} {kind : RuleKind} {found : Match}

theorem finishes_of_ref {target : Expr} {result : Option Match}
    (known : env.rules.lookup name = some target)
    (finishes : Finishes env (.ref name) here atomic before result after) :
    Finishes env target here atomic before result after := by
  obtain ⟨fuel, ended⟩ := finishes.exists_eval
  simp only [eval, Action.lookupRule, known, pure_bind] at ended
  exact finishes_iff_eval.mpr ⟨fuel, ended⟩

/-- A match of a rule is one of its body. -/
theorem finishes_of_rule (loud : kind ≠ .silent)
    (finishes : Finishes env (.rule tag name kind body) here atomic before (some found) after) :
    ∃ inner left, Finishes env body here (kind.bodyAtomic atomic) (before.inRule env name here)
      (some inner) left ∧ inner.stop = found.stop := by
  obtain ⟨fuel, ended⟩ := finishes.exists_eval
  simp only [eval, Clause.ruleScope, if_neg loud] at ended
  obtain ⟨_, entered, emitted, ended⟩ := Action.bind_eq_done ended
  obtain ⟨result, left, enclosed, ended⟩ := Action.bind_eq_done ended
  obtain ⟨middle, matched⟩ := Action.within_eq_done enclosed
  -- The rule has left its entry in the trace, if there is one, and opened a scope of its own.
  have begun : { entered with tracker := entered.tracker.enter (.rule name) } =
      before.inRule env name here := by
    unfold Action.emit at emitted
    unfold State.inRule
    cases tracing : env.tracing <;> rw [tracing] at emitted <;> cases emitted <;> rfl
  rw [begun] at matched
  cases result with
  | none =>
    obtain ⟨_, _, _, failed⟩ := Action.bind_eq_done ended
    cases failed
  | some inner =>
    obtain ⟨_, _, _, ended⟩ := Action.bind_eq_done ended
    rw [if_neg loud] at ended
    obtain ⟨same, _⟩ := Clause.match_eq_done ended
    exact ⟨inner, _, finishes_iff_eval.mpr ⟨fuel, matched⟩, same.symm⟩

end Rules

end Peg
