import Peg.Proofs.Coupling.Parses
import Peg.Proofs.Machine.Indifference

/-!
# Couplings in one place

Where two runs are compared on one text, places, spans and faults correspond only if they are the
same, and terminals match alike. What remains open is how the expressions differ, and how much the
nodes and the trackers may differ in consequence.
-/
namespace Peg

open Peg.Action (Coupled)

/-- A coupling of two runs on one text. -/
def Coupling.inPlace (nodes : Option Node → Option Node → Prop)
    (trackers : Tracker → Tracker → Prop) (kinds : String → RuleKind → RuleKind → Prop)
    (exprs : Expr → Expr → Prop) (sameLookups : Prop) : Coupling where
  places := Eq
  spans := Eq
  nodes := nodes
  trackers := trackers
  faults := Eq
  kinds := kinds
  terminals _ := True
  exprs := exprs
  sameLookups := sameLookups

/-- Skippers correspond if what is ignored on both sides does. -/
theorem Env.forall₂_skippers {left right : Env} {exprs : Expr → Expr → Prop}
    (whitespace : Option.Rel exprs left.whitespace right.whitespace)
    (comment : Option.Rel exprs left.comment right.comment) :
    List.Forall₂ exprs left.skippers right.skippers :=
  List.rel_filterMap (fun _ _ same => same) (.cons whitespace (.cons comment .nil))

namespace Coupling

variable {nodes : Option Node → Option Node → Prop} {trackers : Tracker → Tracker → Prop}
  {kinds : String → RuleKind → RuleKind → Prop} {exprs : Expr → Expr → Prop} {sameLookups : Prop}

theorem inPlace_states {before also : State} (stack : before.stack = also.stack)
    (tracker : trackers before.tracker also.tracker)
    (forced : sameLookups → before.forced = also.forced) :
    (inPlace nodes trackers kinds exprs sameLookups).States before also :=
  ⟨stack ▸ .refl _, tracker, forced⟩

theorem inPlace_spanTo {start other stop also : Position} (starts : start = other)
    (stops : stop = also) :
    (inPlace nodes trackers kinds exprs sameLookups).SpansAlike (start.spanTo stop)
      (other.spanTo also) := by
  rw [starts, stops]
  cases other.spanTo also with
  | ok span => exact .ok rfl
  | error error => exact .error rfl

/-- Terminals match alike whatever the trackers hold. -/
theorem inPlace_attempt (blur : Tracker.Blur trackers) (refl : ∀ node, nodes node node)
    (leaf : Terminal) {here other : Position} (places : here = other) :
    Coupled (inPlace nodes trackers kinds exprs sameLookups)
      (inPlace nodes trackers kinds exprs sameLookups).Results
      (leaf.attempt here) (leaf.attempt other) := by
  intro before also states
  have attempted : (leaf.attempt here before).Related
      (State.SameStack trackers fun left right => sameLookups → left = right)
      (leaf.attempt here also) :=
    blur.primitive.attempt leaf here before also ⟨states.stack.eq, states.tracker, states.forced⟩
  -- Terminals need no fuel, so that of the ends of two actions only real ones are left.
  have ended : leaf.attempt here before ≠ .exhausted := by
    have ends := @Terminal.attempt_fulfils True (fun _ => True) leaf here before fun _ _ => trivial
    intro endless
    rw [endless] at ends
    exact ends trivial
  rw [← places]
  generalize leaf.attempt here before = outcome at attempted ended
  generalize leaf.attempt here also = repeated at attempted
  cases attempted with
  | done result after =>
    refine .done ?_ (inPlace_states after.stack after.tracker after.forced)
    cases result with
    | some found => exact .some ⟨rfl, refl _⟩
    | none => exact .none
  | fault cause after =>
    exact .fault rfl (inPlace_states after.stack after.tracker after.forced)
  | exhausted => exact absurd rfl ended

end Coupling

end Peg
