import Peg.Proofs.Action.Conditions
import Peg.Proofs.Eval.Transactions
import Peg.Proofs.Natural.Patterns

/-!
# Where the engine stops

For each standard expression a rule says where its matching stops, given where the matching of its
parts does. The nodes that matching builds and the state it leaves are of no concern here, except
that no span may be asked for that ends before it starts, and that every snapshot can be settled.
The rules hold for what matching answers and, given that the parts come to their end, for its coming
to an end.
-/
namespace Peg

/-- The place where a match ends, or nothing for a failure, satisfies the condition. -/
abbrev Stops (total : Bool) (action : Action (Option Match)) (holds : Option Position → Prop) :
    Prop :=
  action.Meets total fun result => holds (result.map Match.stop)

/-- Only one kind of rules takes atomicity back. -/
theorem RuleKind.bodyAtomic_true {kind : RuleKind} (kept : kind ≠ .nonAtomic) :
    kind.bodyAtomic true = true := by
  cases kind with
  | nonAtomic => exact absurd rfl kept
  | normal | silent | atomic | compoundAtomic => rfl

namespace Stops

variable {total : Bool} {start here stop : Position} {holds next : Option Position → Prop}

theorem failed (missing : holds none) : Stops total (pure none) holds := .pure missing

/-- Between positions in order there is a span, so that a match can be answered. -/
theorem answer (ordered : start.Precedes stop) (node : Span → Option Node)
    (reached : holds (some stop)) :
    Stops total (Action.span start stop >>= fun span => pure (some ⟨stop, node span⟩)) holds := by
  have bounds : (start.offset : Int) ≤ stop.offset := Int.ofNat_le.mpr ordered.offset_le
  have made : start.spanTo stop =
      .ok ⟨start.input, start.offset, stop.offset, bounds⟩ := by
    have inputs : start.input.id = stop.input.id := congrArg Input.id ordered.input_eq.symm
    rw [Position.spanTo, if_pos inputs, Span.between, dif_pos bounds]
  rw [Action.span, made]
  exact .pure reached

/-- The answer of what records a failure first. -/
theorem missed (change : Tracker → Tracker) (missing : holds none) :
    Stops total (Action.track change >>= fun _ => pure none) holds :=
  (Action.Meets.modify _).bind fun _ _ => failed missing

/-! ### Terminals -/

/-- What matches one character of a class. -/
theorem character (accept : Char → Bool) (node : Char → Span → Option Node)
    (change : Tracker → Tracker) (grammar : PatternGrammar) (here : Position) :
    Stops total
      (match here.matchChar accept with
        | some (stop, c) => Action.span here stop >>= fun span => pure (some ⟨stop, node c span⟩)
        | none => Action.track change >>= fun _ => pure none)
      fun stop => ∃ steps, Parses grammar (.terminal accept) here steps stop := by
  have parses := Parses.terminal grammar accept here
  split
  next stop c matched =>
    rw [matched] at parses
    exact answer parses.precedes _ ⟨1, parses⟩
  next differs =>
    rw [differs] at parses
    exact missed _ ⟨1, parses⟩

/-- Standard terminals match where their patterns do. -/
theorem attempt {leaf : Terminal} (standard : leaf.Standard) (grammar : PatternGrammar)
    (here : Position) : Stops total (leaf.attempt here) fun stop =>
      ∃ steps, Parses grammar leaf.pattern here steps stop := by
  cases standard with
  | literal text =>
    obtain ⟨steps, parses⟩ := Parses.chars grammar text here
    simp only [Terminal.attempt]
    split
    next stop matched =>
      rw [matched] at parses
      exact answer parses.precedes _ ⟨steps, parses⟩
    next differs =>
      rw [differs] at parses
      exact missed _ ⟨steps, parses⟩
  | charRange low high => exact character _ _ _ grammar here
  | any => exact character _ _ _ grammar here
  | empty =>
    exact answer (.refl here) _ ⟨1, Parses.empty_iff.mpr ⟨rfl, rfl⟩⟩
  | alwaysFail => exact failed ⟨2, Parses.never here⟩

/-! ### Sequences, choices and repetitions -/

section Loops

variable {env : Env} {run : Eval.Matcher} {expr : Expr} {exprs : List Expr}
  {found : Array (Option Node)}

/-- Inside what is atomic nothing is skipped. -/
theorem gapUnless_atomic (here : Position) :
    Eval.gapUnless run (found.isEmpty || true) here = pure here := by
  rw [Bool.or_true]
  rfl

theorem items_nil {atomic : Bool} (ordered : start.Precedes here) (reached : holds (some here)) :
    Stops total (Eval.items run atomic start [] here found) holds :=
  answer ordered _ reached

theorem items_cons (part : Stops total (run expr here true) holds)
    (missing : holds none → next none)
    (matched : ∀ stop, holds (some stop) → ∀ found,
      Stops total (Eval.items run true start exprs stop found) next) :
    Stops total (Eval.items run true start (expr :: exprs) here found) next := by
  rw [Eval.items, gapUnless_atomic, pure_bind]
  refine part.bind fun result met => ?_
  cases result with
  | none => exact failed (missing met)
  | some item => exact matched item.stop met _

theorem alternatives_cons {index : Nat} (part : Stops total (run expr start true) holds)
    (matched : ∀ stop, holds (some stop) → start.Precedes stop ∧ next (some stop))
    (missing : holds none → Stops total (Eval.alternatives run true start (index + 1) exprs) next) :
    Stops total (Eval.alternatives run true start index (expr :: exprs)) next := by
  rw [Eval.alternatives]
  refine part.bind fun result met => ?_
  cases result with
  | none => exact missing met
  | some item =>
    obtain ⟨ordered, reached⟩ := matched item.stop met
    exact answer ordered _ reached

theorem repClause (min : Nat) (ordered : start.Precedes here)
    (reached : next (Parses.exit here (min - found.size))) :
    Stops total (Clause.rep min start here found) next := by
  unfold Clause.rep
  split
  next few =>
    have missing : min - found.size ≠ 0 := by omega
    rw [Parses.exit, if_neg missing] at reached
    exact failed reached
  next enough =>
    have complete : min - found.size = 0 := by omega
    rw [Parses.exit, if_pos complete] at reached
    exact answer ordered _ reached

theorem repetition_full {min : Nat} {max : Option Nat} {rounds : Nat}
    (full : max.any (· ≤ found.size) = true) (ordered : start.Precedes here)
    (reached : next (Parses.exit here (min - found.size))) :
    Stops total (Eval.repetition env run expr min max true start (rounds + 1) here found) next := by
  rw [Eval.repetition, if_pos full]
  exact repClause min ordered reached

theorem repetition_round {min : Nat} {max : Option Nat} {rounds : Nat}
    (unlimited : env.repeatLimit = none) (room : ¬max.any (· ≤ found.size) = true)
    (ordered : start.Precedes here) (part : Stops total (run expr here true) holds)
    (last : holds none → next (Parses.exit here (min - found.size)))
    (more : ∀ stop, holds (some stop) → ∀ node, Stops total
      (Eval.repetition env run expr min max true start rounds stop (found.push node)) next) :
    Stops total (Eval.repetition env run expr min max true start (rounds + 1) here found) next := by
  rw [Eval.repetition, if_neg room, gapUnless_atomic, pure_bind]
  refine part.bind fun result met => ?_
  cases result with
  | none => exact repClause min ordered (last met)
  | some item =>
    -- Without a limit no number of matches is beyond it.
    have free : Clause.beyondLimit env (found.push item.node).size = none := by
      rw [Clause.beyondLimit, unlimited]
      rfl
    dsimp only
    rw [free]
    exact more item.stop met item.node

end Loops

/-! ### Transactions, rules and references -/

theorem transaction (keep : Option Match → Bool) {body : Action (Option Match)}
    {holds : Option Match → Prop} (balanced : Balanced body) (part : body.Meets total holds) :
    (Action.transaction keep body).Meets total holds := by
  constructor
  · intro before after result ended
    obtain ⟨left, began, _⟩ := balanced.transaction_eq_done keep ended
    exact part.sound began
  · intro whole before
    -- The body comes to its end under the snapshot, and then the snapshot can be settled.
    obtain ⟨result, left, began⟩ := part.ends whole before.opened
    obtain ⟨settled, settles, _⟩ := Action.settle_of_grows keep result (balanced.grows began)
    refine ⟨result, { left with stack := settled }, ?_⟩
    unfold Action.transaction
    rw [Action.bind_of_done (Action.snapshot_eq before), Action.bind_of_done began,
      Action.bind_of_done settles]
    rfl

section Parts

variable {env : Env} {fuel : Nat} {body : Expr}

theorem opt (part : Stops total (eval env fuel body here true) holds)
    (missing : holds none → next (some here))
    (matched : ∀ stop, holds (some stop) → here.Precedes stop ∧ next (some stop)) :
    Stops total (eval env (fuel + 1) (.opt body) here true) next := by
  rw [eval_opt]
  refine (transaction _ (Balanced.eval env fuel body here true) part).bind fun result met => ?_
  cases result with
  | none => exact answer (.refl here) _ (missing met)
  | some item =>
    obtain ⟨ordered, reached⟩ := matched item.stop met
    exact answer ordered _ reached

/-- An expression that shows no lazy one has a text. -/
theorem shown (plain : body.shownCells = []) :
    (Action.textOf env body).Meets total fun _ => True := by
  refine ⟨fun _ => trivial, fun _ state => ?_⟩
  obtain ⟨text, shown⟩ := Expr.exists_text env.definitions state.forced plain
  exact ⟨text, state, Action.textOf_of_some shown⟩

/-- A predicate that did not hold is recorded. -/
theorem failedPredicate (plain : body.shownCells = []) (positive : Bool) (start : Position)
    (missing : holds none) :
    Stops total (Action.textOf env body >>= fun label =>
      Action.track (·.recordPredicate positive label start.offset) >>= fun _ => pure none) holds :=
  (shown plain).bind fun _ _ => missed _ missing

theorem positive (plain : body.shownCells = [])
    (part : Stops total (eval env fuel body here true) holds)
    (missing : holds none → next none)
    (matched : ∀ stop, holds (some stop) → next (some here)) :
    Stops total (eval env (fuel + 1) (.positive body) here true) next := by
  rw [eval_positive]
  refine (transaction _ ((Balanced.eval env fuel body here true).within _)
    (part.within _)).bind fun result met => ?_
  cases result with
  | none => exact failedPredicate plain true here (missing met)
  | some item => exact answer (.refl here) _ (matched item.stop met)

theorem negative (plain : body.shownCells = [])
    (part : Stops total (eval env fuel body here true) holds)
    (missing : holds none → next (some here))
    (matched : ∀ stop, holds (some stop) → next none) :
    Stops total (eval env (fuel + 1) (.negative body) here true) next := by
  rw [eval_negative]
  refine (transaction _ ((Balanced.eval env fuel body here true).within _)
    (part.within _)).bind fun result met => ?_
  cases result with
  | none => exact answer (.refl here) _ (missing met)
  | some item => exact failedPredicate plain false here (matched item.stop met)

theorem rule {atomic : Bool} {tag : Nat} {name : String} {kind : RuleKind}
    (part : Stops total (eval env fuel body here (kind.bodyAtomic atomic)) holds)
    (ordered : ∀ stop, holds (some stop) → here.Precedes stop) :
    Stops total (eval env (fuel + 1) (.rule tag name kind body) here atomic) holds := by
  simp only [eval]
  refine (Action.Meets.emit env _).bind fun _ _ => (part.withinAny _).bind fun result met => ?_
  cases result with
  | none => exact (Action.Meets.emit env _).bind fun _ _ => failed met
  | some item =>
    refine (Action.Meets.emit env _).bind fun _ _ => ?_
    dsimp only
    split
    · exact .pure met
    · exact answer (ordered item.stop met) _ met

theorem ref {name : String} {target : Expr} (defined : env.rules.lookup name = some target)
    (part : Stops total (eval env fuel target here true) holds) :
    Stops total (eval env (fuel + 1) (.ref name) here true) holds := by
  simp only [eval, Action.lookupRule, defined, pure_bind]
  exact part

/-- A reference to a rule that there is not is never answered. -/
theorem undefined {name : String} (absent : env.rules.lookup name = none) :
    Stops false (eval env (fuel + 1) (.ref name) here true) holds := by
  simp only [eval, Action.lookupRule, absent]
  exact (Action.Meets.fail _).bind fun _ impossible => impossible.elim

end Parts

end Stops

end Peg
