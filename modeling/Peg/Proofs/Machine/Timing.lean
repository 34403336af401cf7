import Peg.Proofs.Expr.Texts
import Peg.Proofs.Machine.Endings
import Peg.Proofs.Tree.Spans

/-!
# Matching in so many moves

A step of the machine leads to an answer if, whatever frames wait and whatever the tracker holds,
the machine comes in a bounded number of moves to a result for those frames. What is said of the
result and of the stack that goes with it depends on the stack before, but on nothing else of the
state. So statements about parts, each with its bound, are put together to statements about the
whole: an expression waits in its frame for a part, and goes on with what it receives.

There is a rule for each kind of expression that is matched atomically, and one for ignored text. A
repetition has a rule for one round only; how often it goes on is up to what is repeated.
-/
namespace Peg

/-- In any state with the stack, the action answers a value, and something holds of the value and of
the stack that is left. -/
def Action.Gives {α : Type} (action : Action α) (stack : Stack Span)
    (good : α → Stack Span → Prop) : Prop :=
  ∀ before : State, before.stack = stack →
    ∃ value after, action before = .done value after ∧ good value after.stack

namespace Action.Gives

variable {α β : Type} {stack : Stack Span} {here stop : Position}

theorem mono {action : Action α} {good weaker : α → Stack Span → Prop}
    (gives : action.Gives stack good) (weaken : ∀ value after, good value after →
      weaker value after) : action.Gives stack weaker := by
  intro before starts
  obtain ⟨value, after, ended, holds⟩ := gives before starts
  exact ⟨value, after, ended, weaken value _ holds⟩

theorem pure {value : α} {good : α → Stack Span → Prop} (holds : good value stack) :
    (Pure.pure value : Action α).Gives stack good := by
  rintro before rfl
  exact ⟨value, before, rfl, holds⟩

theorem bind {first : Action α} {next : α → Action β} {early : α → Stack Span → Prop}
    {good : β → Stack Span → Prop} (gives : first.Gives stack early)
    (rest : ∀ value middle, early value middle → (next value).Gives middle good) :
    (first >>= next).Gives stack good := by
  intro before starts
  obtain ⟨value, middle, began, holds⟩ := gives before starts
  obtain ⟨answer, after, ended, last⟩ := rest value _ holds middle rfl
  exact ⟨answer, after, (bind_of_done began).trans ended, last⟩

theorem getStack : (Action.gets State.stack).Gives stack
    fun value after => value = stack ∧ after = stack := by
  rintro before rfl
  exact ⟨_, before, rfl, rfl, rfl⟩

theorem changeStack (change : Stack Span → Stack Span) :
    (Action.modify fun state => { state with stack := change state.stack }).Gives stack
      fun _ after => after = change stack := by
  rintro before rfl
  exact ⟨(), _, rfl, rfl⟩

theorem track (change : Tracker → Tracker) :
    (Action.track change).Gives stack fun _ after => after = stack := by
  rintro before rfl
  exact ⟨_, _, rfl, rfl⟩

theorem emit (env : Env) (event : TraceEvent) :
    (Action.emit env event).Gives stack fun _ after => after = stack := by
  rintro before rfl
  unfold Action.emit
  split <;> exact ⟨_, _, rfl, rfl⟩

theorem textOf (env : Env) {expr : Expr} (plain : expr.shownCells = []) :
    (Action.textOf env expr).Gives stack fun _ after => after = stack := by
  rintro before rfl
  obtain ⟨text, shown⟩ := Expr.exists_text env.definitions before.forced plain
  exact ⟨text, before, textOf_of_some shown, rfl⟩

theorem span (ordered : here.Precedes stop) : (Action.span here stop).Gives stack
    fun span after => span.Covers here stop ∧ after = stack := by
  rintro before rfl
  obtain ⟨span, made, covers⟩ := Span.spanTo_eq_ok ordered
  refine ⟨span, before, ?_, covers, rfl⟩
  rw [Action.span, made]
  rfl

variable {good : Option Match → Stack Span → Prop}

/-- A match that ends behind the place where it started has a span. -/
theorem answer (ordered : here.Precedes stop) {node : Span → Option Node}
    (holds : ∀ span, span.Covers here stop → good (some ⟨stop, node span⟩) stack) :
    (Action.span here stop >>= fun span => Pure.pure (some ⟨stop, node span⟩)).Gives stack good :=
  (Gives.span ordered).bind fun span _ made => .pure (made.2 ▸ holds span made.1)

theorem missed (change : Tracker → Tracker) (holds : good none stack) :
    (Action.track change >>= fun _ => Pure.pure none).Gives stack good :=
  (Gives.track change).bind fun _ _ same => .pure (same ▸ holds)

end Action.Gives

open Peg.Action (Gives)

theorem Stack.restore_snapshot {α : Type} (stack : Stack α) :
    stack.snapshot.restore = .ok stack := by
  simp [snapshot, restore]

theorem Action.restore_gives (stack : Stack Span) :
    Action.restore.Gives stack.snapshot fun _ after => after = stack := by
  intro before starts
  refine ⟨(), { before with stack }, ?_, rfl⟩
  simp only [Action.restore, Action.changeStack, Action.gets, bind, Action.bind, starts,
    stack.restore_snapshot, Action.ofExcept]
  rfl

/-! ### Steps -/

namespace Machine

/-- In any state with the stack, and whatever frames wait, the step leads in so many moves to a
result for those frames, and something holds of the result and of the stack that is left. -/
def Leads (env : Env) (cost : Nat) (step : Action Move) (stack : Stack Span)
    (good : Option Match → Stack Span → Prop) : Prop :=
  ∀ (frames : List Frame) (before : State), before.stack = stack →
    ∃ result after moves, good result after.stack ∧ moves ≤ cost ∧ ∀ fuel,
      proceed env (moves + fuel) step frames before = run env fuel (.answer result) frames after

/-- Matching the expression leads to a result. -/
abbrev Fares (env : Env) (cost : Nat) (expr : Expr) (here : Position) (atomic : Bool)
    (stack : Stack Span) (good : Option Match → Stack Span → Prop) : Prop :=
  Leads env cost (begin env expr here atomic) stack good

variable {env : Env} {cost later : Nat} {stack : Stack Span} {here start : Position}
  {atomic : Bool} {good middle : Option Match → Stack Span → Prop}

namespace Leads

theorem mono {step : Action Move} {more : Nat} {weaker : Option Match → Stack Span → Prop}
    (leads : Leads env cost step stack good) (le : cost ≤ more)
    (weaken : ∀ result after, good result after → weaker result after) :
    Leads env more step stack weaker := by
  intro frames before starts
  obtain ⟨result, after, moves, holds, within, same⟩ := leads frames before starts
  exact ⟨result, after, moves, weaken result _ holds, Nat.le_trans within le, same⟩

theorem conclude {clause : Action (Option Match)} (gives : clause.Gives stack good) :
    Leads env 0 (Machine.conclude clause) stack good := by
  intro frames before starts
  obtain ⟨result, after, ended, holds⟩ := gives before starts
  refine ⟨result, after, 0, holds, Nat.le_refl 0, fun fuel => ?_⟩
  rw [Machine.conclude, proceed_bind_of_done ended, Nat.zero_add]
  rfl

theorem answer {result : Option Match} (holds : good result stack) :
    Leads env 0 (pure (.answer result)) stack good :=
  conclude (Gives.pure holds)

theorem bind {α : Type} {first : Action α} {next : α → Action Move}
    {early : α → Stack Span → Prop} (gives : first.Gives stack early)
    (rest : ∀ value middle, early value middle → Leads env cost (next value) middle good) :
    Leads env cost (first >>= next) stack good := by
  intro frames before starts
  obtain ⟨value, between, began, holds⟩ := gives before starts
  obtain ⟨result, after, moves, last, within, same⟩ := rest value _ holds frames between rfl
  refine ⟨result, after, moves, last, within, fun fuel => ?_⟩
  rw [proceed_bind_of_done began, same]

/-- What comes before a step and leaves the stack alone does not matter. -/
theorem after_same {α : Type} {first : Action α} {next : α → Action Move}
    (gives : first.Gives stack fun _ after => after = stack)
    (rest : ∀ value, Leads env cost (next value) stack good) :
    Leads env cost (first >>= next) stack good :=
  bind gives fun value _ same => same ▸ rest value

theorem openScope (scope? : Option Scope) {next : Unit → Action Move}
    (rest : Leads env cost (next ()) stack good) :
    Leads env cost (Machine.openScope scope? >>= next) stack good := by
  refine after_same ?_ fun _ => rest
  cases scope? with
  | none => exact .pure rfl
  | some scope => exact Gives.track (·.enter scope)

theorem closeScope (scope? : Option Scope) {next : Unit → Action Move}
    (rest : Leads env cost (next ()) stack good) :
    Leads env cost (Machine.closeScope scope? >>= next) stack good := by
  refine after_same ?_ fun _ => rest
  cases scope? with
  | none => exact .pure rfl
  | some scope => exact Gives.track (·.leave scope)

theorem enter {expr : Expr} (fares : Fares env cost expr here atomic stack good) :
    Leads env (cost + 1) (pure (.enter expr here atomic)) stack good := by
  intro frames before starts
  obtain ⟨result, after, moves, holds, within, same⟩ := fares frames before starts
  refine ⟨result, after, moves + 1, holds, Nat.succ_le_succ within, fun fuel => ?_⟩
  rw [Nat.add_right_comm]
  exact same fuel

/-- A part is matched, and the frame goes on with what it receives. -/
theorem call {frame : Frame} {expr : Expr} (fares : Fares env cost expr here atomic stack middle)
    (receives : ∀ result after, middle result after →
      Leads env later (receive env frame result) after good) :
    Leads env (cost + later + 2) (pure (.call frame expr here atomic)) stack good := by
  intro frames before starts
  obtain ⟨part, between, early, holds, within, first⟩ := fares (frame :: frames) before starts
  obtain ⟨result, after, late, last, also, second⟩ := receives part _ holds frames between rfl
  refine ⟨result, after, early + late + 2, last, by omega, fun fuel => ?_⟩
  have split : early + late + 2 + fuel = early + (late + fuel + 1) + 1 := by omega
  rw [split]
  exact (first (late + fuel + 1)).trans (second fuel)

/-- A part is matched, and the frame answers with what it receives. -/
theorem callLast {frame : Frame} {expr : Expr}
    (fares : Fares env cost expr here atomic stack middle)
    (receives : ∀ result after, middle result after →
      Leads env 0 (receive env frame result) after good) :
    Leads env (cost + 2) (pure (.call frame expr here atomic)) stack good := call fares receives

end Leads

/-- What leads to a result comes to it within the bound. -/
theorem Fares.run_eq_done {expr : Expr} (fares : Fares env cost expr here atomic stack good)
    {before : State} (starts : before.stack = stack) {fuel : Nat} (enough : cost + 2 ≤ fuel) :
    ∃ result after, good result after.stack ∧
      Peg.run env fuel expr here atomic before = .done result after := by
  obtain ⟨result, after, moves, holds, within, same⟩ := fares [] before starts
  obtain ⟨rest, rfl⟩ : ∃ rest, fuel = moves + (rest + 1) + 1 := ⟨fuel - moves - 2, by omega⟩
  exact ⟨result, after, holds, congrArg Halt.settle (same (rest + 1))⟩

namespace Fares

/-! ### Terminals, rules and references -/

theorem terminal {leaf : Terminal} (gives : (leaf.attempt here).Gives stack good) :
    Fares env 0 (.terminal leaf) here atomic stack good := .conclude gives

theorem ref {name : String} {target : Expr} (known : env.rules.lookup name = some target)
    (fares : Fares env cost target here atomic stack good) :
    Fares env (cost + 1) (.ref name) here atomic stack good := by
  have looked : Action.lookupRule env name = pure target := by rw [Action.lookupRule, known]
  change Leads env _ (Action.lookupRule env name >>= fun target =>
    pure (.enter target here atomic)) stack good
  rw [looked, pure_bind]
  exact .enter fares

/-- The node that a rule makes of the match of its body. -/
def ruleNode (name : String) (kind : RuleKind) (node : Option Node) (span : Span) : Option Node :=
  some (.rule name span (if kind = .atomic then none else node))

theorem rule {tag : Nat} {name : String} {kind : RuleKind} {body : Expr}
    (fares : Fares env cost body here (kind.bodyAtomic atomic) stack middle)
    (missed : ∀ after, middle none after → good none after)
    (silent : kind = .silent → ∀ found after, middle (some found) after → good (some found) after)
    (matched : kind ≠ .silent → ∀ found after, middle (some found) after →
      here.Precedes found.stop ∧ ∀ span, span.Covers here found.stop →
        good (some ⟨found.stop, ruleNode name kind found.node span⟩) after) :
    Fares env (cost + 2) (.rule tag name kind body) here atomic stack good := by
  refine Leads.after_same (.emit env _) fun _ => .openScope _ ?_
  refine Leads.callLast fares fun result after holds => .closeScope _ (.conclude ?_)
  cases result with
  | none =>
    exact (Gives.emit env _).bind fun _ _ same => .pure (same ▸ missed after holds)
  | some found =>
    refine (Gives.emit env _).bind fun _ _ same => ?_
    subst same
    by_cases quiet : kind = .silent
    · rw [if_pos quiet]
      exact .pure (silent quiet found _ holds)
    · rw [if_neg quiet]
      obtain ⟨ordered, made⟩ := matched quiet found _ holds
      exact .answer ordered made

theorem push {body : Expr} (fares : Fares env cost body here atomic stack middle)
    (missed : ∀ after, middle none after → good none after)
    (matched : ∀ found after, middle (some found) after → here.Precedes found.stop ∧
      ∀ span, span.Covers here found.stop →
        good (some ⟨found.stop, some (.push span found.node)⟩) (after.push span)) :
    Fares env (cost + 2) (.push body) here atomic stack good := by
  refine Leads.callLast fares fun result after holds => .conclude ?_
  cases result with
  | none => exact .pure (missed after holds)
  | some found =>
    obtain ⟨ordered, made⟩ := matched found after holds
    refine (Gives.span ordered).bind fun span between covered => ?_
    obtain ⟨covers, rfl⟩ := covered
    refine (Gives.changeStack (·.push span)).bind ?_
    rintro _ _ rfl
    exact .pure (made span covers)

/-- Whatever a negative lookahead sees, it leaves the stack as it was. -/
theorem negative {body : Expr} (plain : body.shownCells = [])
    (fares : Fares env cost body here atomic stack.snapshot middle)
    (kept : ∀ result after, middle result after → after = stack.snapshot)
    (missed : ∀ span, span.Covers here here → middle none stack.snapshot →
      good (some ⟨here, some (.predicate span false none)⟩) stack)
    (found : ∀ item, middle (some item) stack.snapshot → good none stack) :
    Fares env (cost + 2) (.negative body) here atomic stack good := by
  refine Leads.bind (Gives.changeStack Stack.snapshot) fun _ _ same => ?_
  subst same
  refine .openScope (some (.lookahead .negative)) ?_
  refine Leads.callLast fares fun result after holds => ?_
  obtain rfl := kept result after holds
  refine .closeScope (some (.lookahead .negative)) (.conclude ?_)
  refine (Action.restore_gives stack).bind fun _ _ same => ?_
  subst same
  cases result with
  | none => exact .answer (.refl here) fun span covers => missed span covers holds
  | some item =>
    exact (Gives.textOf env plain).bind fun _ _ same => same ▸ .missed _ (found item holds)

end Fares

/-! ### Sequences and choices -/

namespace Leads

variable {expr : Expr} {found : Array (Option Node)}

/-- The last item of a sequence. -/
theorem lastItem (fares : Fares env cost expr here true stack middle)
    (missed : ∀ after, middle none after → good none after)
    (matched : ∀ item after, middle (some item) after → start.Precedes item.stop ∧
      ∀ span, span.Covers start item.stop →
        good (some ⟨item.stop, some (.seq span (found.push item.node).toList)⟩) after) :
    Leads env (cost + 2) (pure (.call (.seqItem start [] found true) expr here true)) stack
      good := by
  refine callLast fares fun result after holds => ?_
  cases result with
  | none => exact answer (missed after holds)
  | some item =>
    obtain ⟨ordered, made⟩ := matched item after holds
    exact conclude (.answer ordered made)

/-- An item of a sequence, in front of others. -/
theorem item {next : Expr} {rest : List Expr} (fares : Fares env cost expr here true stack middle)
    (missed : ∀ after, middle none after → good none after)
    (matched : ∀ item after, middle (some item) after → Leads env later
      (pure (.call (.seqItem start rest (found.push item.node) true) next item.stop true)) after
      good) :
    Leads env (cost + later + 2)
      (pure (.call (.seqItem start (next :: rest) found true) expr here true)) stack good := by
  refine call fares fun result after holds => ?_
  cases result with
  | none => exact (answer (missed after holds)).mono (Nat.zero_le _) fun _ _ holds => holds
  | some item => exact matched item after holds

/-- The last alternative of a choice. -/
theorem lastAlternative {index : Nat} (fares : Fares env cost expr start atomic stack middle)
    (missed : ∀ after, middle none after → good none after)
    (matched : ∀ item after, middle (some item) after → start.Precedes item.stop ∧
      ∀ span, span.Covers start item.stop →
        good (some ⟨item.stop, some (.choice span index item.node)⟩) after) :
    Leads env (cost + 2) (pure (.call (.choice start index [] atomic) expr start atomic)) stack
      good := by
  refine callLast fares fun result after holds => ?_
  cases result with
  | none => exact answer (missed after holds)
  | some item =>
    obtain ⟨ordered, made⟩ := matched item after holds
    exact conclude (.answer ordered made)

/-- An alternative of a choice, in front of others. -/
theorem alternative {next : Expr} {rest : List Expr} {index : Nat}
    (fares : Fares env cost expr start atomic stack middle)
    (missed : ∀ after, middle none after → Leads env later
      (pure (.call (.choice start (index + 1) rest atomic) next start atomic)) after good)
    (matched : ∀ item after, middle (some item) after → start.Precedes item.stop ∧
      ∀ span, span.Covers start item.stop →
        good (some ⟨item.stop, some (.choice span index item.node)⟩) after) :
    Leads env (cost + later + 2)
      (pure (.call (.choice start index (next :: rest) atomic) expr start atomic)) stack good := by
  refine call fares fun result after holds => ?_
  cases result with
  | none => exact missed after holds
  | some item =>
    obtain ⟨ordered, made⟩ := matched item after holds
    exact (conclude (.answer ordered made)).mono (Nat.zero_le _) fun _ _ holds => holds

/-! ### Repetitions -/

/-- A repetition without a maximum comes to its end. -/
theorem rep_gives {min : Nat} (ordered : start.Precedes here)
    (few : found.size < min → good none stack)
    (enough : min ≤ found.size → ∀ span, span.Covers start here →
      good (some ⟨here, some (.rep span found.toList)⟩) stack) :
    (Clause.rep min start here found).Gives stack good := by
  unfold Clause.rep
  split
  next short => exact .pure (few short)
  next full => exact .answer ordered (enough (Nat.le_of_not_lt full))

/-- After ignored text, if there may be any, a repetition tries its body once more. -/
theorem attempt {loop : Repetition}
    (fares : Fares env cost loop.body here loop.atomic stack middle)
    (missed : ∀ after, middle none after →
      (Clause.rep loop.min loop.start here found).Gives after good)
    (beyond : Clause.beyondLimit env (found.size + 1) ≠ none → ∀ item after,
      middle (some item) after → good none after)
    (matched : Clause.beyondLimit env (found.size + 1) = none → ∀ item after,
      middle (some item) after →
        Leads env later (continueRep loop item.stop (found.push item.node)) after good) :
    Leads env (cost + later + 2) (pure (.call (.repItem loop here found) loop.body here
      loop.atomic)) stack good := by
  refine call fares fun result after holds => ?_
  cases result with
  | none =>
    exact (conclude (missed after holds)).mono (Nat.zero_le _) fun _ _ holds => holds
  | some item =>
    simp only [receive, Array.size_push]
    split
    next limit met =>
      have fails := beyond (by rw [met]; exact Option.some_ne_none limit) item after holds
      exact (conclude (.missed _ fails)).mono (Nat.zero_le _) fun _ _ holds => holds
    next within => exact matched within item after holds

/-- Nothing is skipped in front of the first match, or if matching is atomic. -/
theorem round {loop : Repetition} (unbounded : loop.max = none)
    (tight : (found.isEmpty || loop.atomic) = true)
    (leads : Leads env cost (pure (.call (.repItem loop here found) loop.body here loop.atomic))
      stack good) : Leads env cost (continueRep loop here found) stack good := by
  rw [continueRep, unbounded, Option.any_none, if_neg Bool.false_ne_true, if_pos tight]
  exact leads

theorem round_gap {loop : Repetition} (unbounded : loop.max = none)
    (loose : (found.isEmpty || loop.atomic) = false)
    (gap : Fares env cost .ignored here false stack middle)
    (leads : ∀ result after, middle result after → Leads env later
      (pure (.call (.repItem loop (Clause.afterGap here result) found) loop.body
        (Clause.afterGap here result) loop.atomic)) after good) :
    Leads env (cost + later + 2) (continueRep loop here found) stack good := by
  rw [continueRep, unbounded, Option.any_none, loose, if_neg Bool.false_ne_true,
    if_neg Bool.false_ne_true]
  exact call gap leads

end Leads

end Machine

end Peg
