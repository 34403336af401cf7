import Peg.Proofs.Natural.Adequacy

/-!
# What matching takes of a text

A scan stands for the ways to match something at a position: an expression, the items of a sequence
that are left, the alternatives that are left. What a scan takes of an input is the same wherever
the text goes on with that input. All that expressions are made of branches in one way: one scan
comes first, and another one goes on from where it started if it failed, or from where it stopped if
it did not. So there is one rule for all of them, and each kind of expression has a lemma that says
which branch it is.
-/
namespace Peg

theorem Position.Reads.reaches {here middle : Position} {text : List Char} {stop : Option Position}
    {outcome : Option (List Char)} (reads : here.Reads text middle)
    (reached : middle.Reaches stop outcome) : here.Reaches stop (outcome.map (text ++ ·)) := by
  cases reached with
  | success more => exact .success (reads.trans more)
  | failure => exact .failure

/-- Ways to match at a position, given so much fuel. -/
def Scan : Type := Nat → Position → Action (Option Match) → Prop

namespace Scan

/-- Wherever the text goes on with the input, scanning comes to its end, given enough fuel, with the
outcome: the part of the input that is taken, or nothing for failure. -/
def Takes (env : Env) (scan : Scan) (input : List Char) (outcome : Option (List Char)) : Prop :=
  Eventually fun fuel => ∀ here action, here.input = env.input → here.rest = input →
    scan fuel here action → Stops true action fun stop => here.Reaches stop outcome

/-- All ways of one scan are ways of another. -/
def Refines (scan inner : Scan) : Prop :=
  ∀ fuel here action, scan fuel here action → inner fuel here action

/-- With one unit of fuel more, all ways of one scan are ways of another. -/
def Unfolds (scan inner : Scan) : Prop :=
  ∀ fuel here action, scan (fuel + 1) here action → inner fuel here action

/-- Does not match. -/
def failing : Scan := fun _ _ action => Stops true action (· = none)

/-- Matches the empty text. -/
def standing : Scan := fun _ here action => Stops true action (· = some here)

/-- Answers that there is no match, and does nothing else. -/
def quits : Scan := fun _ _ action => action = pure none

/-- Answers a match that ends at the position, and does nothing else. -/
def stays : Scan := fun _ here action => ∃ (start : Position) (node : Span → Option Node),
  start.Precedes here ∧
    action = Action.span start here >>= fun span => pure (some ⟨here, node span⟩)

/-- One scan, and then another: `ended` from where the first started if that failed, and `more` from
where the first stopped if it did not. -/
def branch (first ended more : Scan) : Scan := fun fuel here action =>
  ∃ (early : Action (Option Match)) (late : Option Match → Action (Option Match)),
    action = early >>= late ∧ first fuel here early ∧ ended fuel here (late none) ∧
      ∀ found, here.Precedes found.stop → more fuel found.stop (late (some found))

section Rules

variable {env : Env} {scan inner first ended more : Scan} {input text rest : List Char}
  {outcome : Option (List Char)}

theorem Takes.refine (takes : inner.Takes env input outcome) (refines : scan.Refines inner) :
    scan.Takes env input outcome :=
  takes.mono fun fuel stops here action whole front ways =>
    stops here action whole front (refines fuel here action ways)

theorem Takes.unfold (takes : inner.Takes env input outcome) (unfolds : scan.Unfolds inner) :
    scan.Takes env input outcome :=
  Eventually.succ takes fun fuel stops here action whole front ways =>
    stops here action whole front (unfolds fuel here action ways)

theorem failing_takes : failing.Takes env input none := by
  refine ⟨0, fun fuel _ here action _ _ fails => fails.mono fun result missed => ?_⟩
  rw [missed]
  exact .failure

theorem standing_takes : standing.Takes env input (some []) := by
  refine ⟨0, fun fuel _ here action _ _ stands => stands.mono fun result reached => ?_⟩
  rw [reached]
  exact .success (.refl here)

theorem Takes.branch_missed (missed : first.Takes env input none)
    (late : ended.Takes env input outcome) : (branch first ended more).Takes env input outcome := by
  refine (missed.and late).mono fun fuel both here action whole front => ?_
  rintro ⟨begun, next, rfl, isFirst, isEnded, _⟩
  refine (both.1 here begun whole front isFirst).bind fun result reached => ?_
  cases result with
  | none => exact both.2 here (next none) whole front isEnded
  | some found => cases reached

theorem Takes.branch_found (found : first.Takes env (text ++ rest) (some text))
    (late : more.Takes env rest outcome) :
    (branch first ended more).Takes env (text ++ rest) (outcome.map (text ++ ·)) := by
  refine (found.and late).mono fun fuel both here action whole front => ?_
  rintro ⟨begun, next, rfl, isFirst, _, isMore⟩
  refine (both.1 here begun whole front isFirst).bind fun result reached => ?_
  cases result with
  | none => cases reached
  | some item =>
    cases reached with
    | success reads =>
      -- After the text that was taken, the rest is left.
      have left : item.stop.rest = rest :=
        List.append_cancel_left (reads.rest_eq.symm.trans front)
      have goesOn := both.2 item.stop (next (some item)) (reads.input_eq.trans whole) left
        (isMore item reads.precedes)
      exact goesOn.mono fun result reached => reads.reaches reached

end Rules

section Weakening

variable {scan inner other first ended more later after : Scan}

theorem Refines.refl (scan : Scan) : scan.Refines scan := fun _ _ _ => id

theorem Refines.trans (early : scan.Refines inner) (late : inner.Refines other) :
    scan.Refines other :=
  fun fuel here action ways => late fuel here action (early fuel here action ways)

theorem Unfolds.weaken (unfolds : scan.Unfolds inner) (refines : inner.Refines other) :
    scan.Unfolds other :=
  fun fuel here action ways => refines fuel here action (unfolds fuel here action ways)

theorem quits_refines : quits.Refines failing := by
  rintro fuel here _ rfl
  exact .pure rfl

theorem stays_refines : stays.Refines standing := by
  rintro fuel here _ ⟨start, node, ordered, rfl⟩
  change Stops true _ (· = some here)
  exact Stops.answer ordered node rfl

/-- Ways to go on may be replaced by others. -/
theorem branch_refines (missing : ended.Refines later) (found : more.Refines after) :
    (branch first ended more).Refines (branch first later after) := by
  rintro fuel here action ⟨early, late, made, isFirst, isEnded, isMore⟩
  refine ⟨early, late, made, isFirst, missing fuel here _ isEnded, fun item ordered => ?_⟩
  exact found fuel item.stop _ (isMore item ordered)

end Weakening

/-! ### Expressions -/

/-- Matching an expression. -/
def expr (env : Env) (atomic : Bool) (expr : Expr) : Scan := fun fuel here action =>
  action = eval env fuel expr here atomic

/-- Skipping ignored text where something was matched before, unless atomic. -/
def gap (env : Env) (atomic : Bool) : Scan := fun fuel here action =>
  action = Eval.gapUnless (eval env fuel) atomic here >>= fun stop => pure (some ⟨stop, none⟩)

/-- The items of a sequence that are left after at least one of them. -/
def items (env : Env) (atomic : Bool) (exprs : List Expr) : Scan := fun fuel here action =>
  ∃ (start : Position) (found : Array (Option Node)), start.Precedes here ∧ found.isEmpty = false ∧
    action = Eval.items (eval env fuel) atomic start exprs here found

/-- The alternatives of a choice that are left. -/
def alternatives (env : Env) (atomic : Bool) (exprs : List Expr) : Scan := fun fuel here action =>
  ∃ index, action = Eval.alternatives (eval env fuel) atomic here index exprs

/-- A scan under a snapshot of the stack, which is settled afterwards. -/
def settled (scan : Scan) : Scan := fun fuel here action => ∃ keep body,
  action = Action.transaction keep body ∧ Balanced body ∧ scan fuel here body

/-- A scan inside a scope of the tracker. -/
def enclosed (scan : Scan) : Scan := fun fuel here action => ∃ scope body,
  action = Action.within scope body ∧ scan fuel here body

section Expressions

variable {env : Env} {atomic : Bool} {first body : Expr} {rest : List Expr}

theorem stands {start here : Position} (fuel : Nat) (ordered : start.Precedes here)
    (node : Span → Option Node) : stays fuel here
      (Action.span start here >>= fun span => pure (some ⟨here, node span⟩)) :=
  ⟨start, node, ordered, rfl⟩

/-- An item of a sequence is tried, and the others are left if it matches. -/
theorem branch_item {fuel : Nat} {start here : Position} (ordered : start.Precedes here)
    (found : Array (Option Node)) :
    branch (expr env atomic first) quits (items env atomic rest) fuel here
      (eval env fuel first here atomic >>= fun result => match result with
        | none => pure none
        | some item =>
          Eval.items (eval env fuel) atomic start rest item.stop (found.push item.node)) := by
  refine ⟨_, _, rfl, rfl, rfl, ?_⟩
  intro item late
  exact ⟨start, found.push item.node, ordered.trans late, by simp, rfl⟩

theorem seq_opens : (expr env atomic (.seq first rest)).Unfolds
    (branch (expr env atomic first) quits (items env atomic rest)) := by
  rintro fuel here action rfl
  exact branch_item (.refl here) #[]

theorem seq_unfolds : (expr env atomic (.seq first rest)).Unfolds
    (branch (expr env atomic first) failing (items env atomic rest)) :=
  seq_opens.weaken (branch_refines quits_refines (.refl _))

theorem items_nil_stays : (items env atomic []).Refines stays := by
  rintro fuel here action ⟨start, found, ordered, _, rfl⟩
  exact stands fuel ordered _

theorem items_nil_refines : (items env atomic []).Refines standing :=
  items_nil_stays.trans stays_refines

/-- What begins with ignored text, and goes on where that ends. -/
theorem branch_gap {more : Scan} {fuel : Nat} {here : Position}
    {next : Position → Action (Option Match)}
    (goesOn : ∀ stop, here.Precedes stop → more fuel stop (next stop)) :
    branch (gap env atomic) quits more fuel here
      (Eval.gapUnless (eval env fuel) atomic here >>= next) := by
  refine ⟨_, fun result => match result with
    | none => pure none
    | some skipped => next skipped.stop, ?_, rfl, rfl, ?_⟩
  · rw [bind_assoc]
    rfl
  · intro skipped ordered
    exact goesOn skipped.stop ordered

theorem items_cons_opens : (items env atomic (first :: rest)).Refines
    (branch (gap env atomic) quits
      (branch (expr env atomic first) quits (items env atomic rest))) := by
  rintro fuel here action ⟨start, found, ordered, begun, rfl⟩
  rw [Eval.items, begun, Bool.false_or]
  exact branch_gap fun stop early => branch_item (ordered.trans early) found

theorem items_cons_refines : (items env atomic (first :: rest)).Refines
    (branch (gap env atomic) failing
      (branch (expr env atomic first) failing (items env atomic rest))) :=
  items_cons_opens.trans (branch_refines quits_refines (branch_refines quits_refines (.refl _)))

/-- In what is atomic, one item follows the other at once. -/
theorem items_atomic_opens : (items env true (first :: rest)).Refines
    (branch (expr env true first) quits (items env true rest)) := by
  rintro fuel here action ⟨start, found, ordered, begun, rfl⟩
  rw [Eval.items, Stops.gapUnless_atomic, pure_bind]
  exact branch_item ordered found

theorem items_atomic_refines : (items env true (first :: rest)).Refines
    (branch (expr env true first) failing (items env true rest)) :=
  items_atomic_opens.trans (branch_refines quits_refines (.refl _))

/-- An alternative of a choice is tried, and the others are left if it does not match. -/
theorem branch_alternative {fuel : Nat} {here : Position} (index : Nat) :
    branch (expr env atomic first) (alternatives env atomic rest) stays fuel here
      (Eval.alternatives (eval env fuel) atomic here index (first :: rest)) := by
  rw [Eval.alternatives]
  refine ⟨_, _, rfl, rfl, ⟨index + 1, rfl⟩, ?_⟩
  intro found ordered
  exact stands fuel ordered _

theorem choice_opens : (expr env atomic (.choice first rest)).Unfolds
    (branch (expr env atomic first) (alternatives env atomic rest) stays) := by
  rintro fuel here action rfl
  change branch _ _ _ fuel here (Eval.alternatives (eval env fuel) atomic here 0 (first :: rest))
  exact branch_alternative 0

theorem choice_unfolds : (expr env atomic (.choice first rest)).Unfolds
    (branch (expr env atomic first) (alternatives env atomic rest) standing) :=
  choice_opens.weaken (branch_refines (.refl _) stays_refines)

theorem alternatives_nil_quits : (alternatives env atomic []).Refines quits := by
  rintro fuel here action ⟨index, rfl⟩
  rfl

theorem alternatives_nil_refines : (alternatives env atomic []).Refines failing :=
  alternatives_nil_quits.trans quits_refines

theorem alternatives_cons_opens : (alternatives env atomic (first :: rest)).Refines
    (branch (expr env atomic first) (alternatives env atomic rest) stays) := by
  rintro fuel here action ⟨index, rfl⟩
  exact branch_alternative index

theorem alternatives_cons_refines : (alternatives env atomic (first :: rest)).Refines
    (branch (expr env atomic first) (alternatives env atomic rest) standing) :=
  alternatives_cons_opens.trans (branch_refines (.refl _) stays_refines)

theorem opt_opens : (expr env atomic (.opt body)).Unfolds
    (branch (settled (expr env atomic body)) stays stays) := by
  rintro fuel here action rfl
  rw [eval_opt]
  refine ⟨_, _, rfl, ⟨_, _, rfl, Balanced.eval env fuel body here atomic, rfl⟩, ?_, ?_⟩
  · exact stands fuel (.refl here) _
  · intro found ordered
    exact stands fuel ordered _

theorem opt_unfolds : (expr env atomic (.opt body)).Unfolds
    (branch (settled (expr env atomic body)) standing standing) :=
  opt_opens.weaken (branch_refines stays_refines stays_refines)

theorem negative_unfolds (plain : body.shownCells = []) :
    (expr env atomic (.negative body)).Unfolds
      (branch (settled (enclosed (expr env atomic body))) standing failing) := by
  rintro fuel here action rfl
  rw [eval_negative]
  have balanced := (Balanced.eval env fuel body here atomic).within (.lookahead .negative)
  refine ⟨_, _, rfl, ⟨_, _, rfl, balanced, _, _, rfl, rfl⟩, ?_, ?_⟩
  · exact stays_refines fuel here _ (stands fuel (.refl here) _)
  · intro found _
    change Stops true _ (· = none)
    exact Stops.failedPredicate plain false here rfl

theorem ref_unfolds {name : String} {target : Expr}
    (defined : env.rules.lookup name = some target) :
    (expr env atomic (.ref name)).Unfolds (expr env atomic target) := by
  rintro fuel here action rfl
  simp only [expr, eval, Action.lookupRule, defined, pure_bind]

end Expressions

section Wrapped

variable {env : Env} {scan : Scan} {input : List Char} {outcome : Option (List Char)}

theorem Takes.settled (takes : scan.Takes env input outcome) :
    (settled scan).Takes env input outcome := by
  refine takes.mono fun fuel stops here action whole front => ?_
  rintro ⟨keep, body, rfl, balanced, ways⟩
  exact Stops.transaction keep balanced (stops here body whole front ways)

theorem Takes.enclosed (takes : scan.Takes env input outcome) :
    (enclosed scan).Takes env input outcome := by
  refine takes.mono fun fuel stops here action whole front => ?_
  rintro ⟨scope, body, rfl, ways⟩
  exact (stops here body whole front ways).within scope

/-- Rules take what their bodies take, matched as atomically as the kind of rule says. -/
theorem Takes.rule {atomic : Bool} {tag : Nat} {name : String} {kind : RuleKind} {body : Expr}
    (takes : (expr env (kind.bodyAtomic atomic) body).Takes env input outcome) :
    (expr env atomic (.rule tag name kind body)).Takes env input outcome := by
  refine takes.succ fun fuel stops here action whole front ways => ?_
  rw [ways]
  refine Stops.rule (stops here _ whole front rfl) fun stop reached => ?_
  cases reached with
  | success reads => exact reads.precedes

end Wrapped

/-! ### Repetitions -/

/-- A round of a repetition without an upper bound, after ignored text. -/
def round (env : Env) (run : Eval.Matcher) (body : Expr) (min : Nat) (atomic : Bool)
    (start : Position) (rounds : Nat) (found : Array (Option Node)) (here : Position) :
    Action (Option Match) := do
  match ← run body here atomic with
  | none => Clause.rep min start here found
  | some item =>
    let found := found.push item.node
    match Clause.beyondLimit env found.size with
    | some limit => Clause.repLimit limit item.stop
    | none => Eval.repetition env run body min none atomic start rounds item.stop found

/-- A round of a repetition after so many matches, with at least so many rounds after it. -/
def turn (env : Env) (atomic : Bool) (body : Expr) (min size count : Nat) : Scan :=
  fun fuel here action => ∃ (start : Position) (found : Array (Option Node)) (rounds : Nat),
    start.Precedes here ∧ found.size = count ∧ size ≤ rounds ∧
      action = round env (eval env fuel) body min atomic start rounds found here

/-- What a repetition comes to that fails to match once more. -/
def closing (min count : Nat) : Scan := if count < min then failing else standing

/-- What a repetition comes to that has matched once more. -/
def further (env : Env) (atomic : Bool) (body : Expr) (min size count : Nat) : Scan :=
  match Clause.beyondLimit env count with
  | some _ => failing
  | none => branch (gap env atomic) failing (turn env atomic body min size count)

/-- What a repetition answers that does not match once more. -/
def closes (min count : Nat) : Scan := if count < min then quits else stays

/-- The rounds of a repetition that are left after one that matched, if the limit allows for it. -/
def rounds (env : Env) (atomic : Bool) (body : Expr) (min size count : Nat) : Scan :=
  match Clause.beyondLimit env count with
  | some _ => failing
  | none => branch (gap env atomic) quits (turn env atomic body min size count)

section Repetitions

variable {env : Env} {atomic : Bool} {body : Expr} {min : Nat}

theorem repClause_closes {fuel count : Nat} {start here : Position} {found : Array (Option Node)}
    (ordered : start.Precedes here) (counted : found.size = count) :
    closes min count fuel here (Clause.rep min start here found) := by
  subst counted
  unfold closes Clause.rep
  split
  · rfl
  · exact stands fuel ordered _

theorem closes_refines (min count : Nat) : (closes min count).Refines (closing min count) := by
  unfold closes closing
  split
  · exact quits_refines
  · exact stays_refines

theorem rounds_refines (size count : Nat) :
    (rounds env atomic body min size count).Refines (further env atomic body min size count) := by
  unfold rounds further
  cases Clause.beyondLimit env count with
  | some limit => exact .refl _
  | none => exact branch_refines quits_refines (.refl _)

/-- Where there is no limit, rounds go on. -/
theorem rounds_of_unlimited (unlimited : env.repeatLimit = none) (size count : Nat) :
    rounds env atomic body min size count =
      branch (gap env atomic) quits (turn env atomic body min size count) := by
  unfold rounds Clause.beyondLimit
  rw [unlimited]
  rfl

/-- In front of each round but the first one, text is ignored. -/
theorem repetition_eq (run : Eval.Matcher) (start here : Position) (rounds : Nat)
    (found : Array (Option Node)) :
    Eval.repetition env run body min none atomic start (rounds + 1) here found =
      Eval.gapUnless run (found.isEmpty || atomic) here >>=
        round env run body min atomic start rounds found := by
  rw [Eval.repetition]
  rfl

theorem turn_opens (size count : Nat) : (turn env atomic body min (size + 1) count).Refines
    (branch (expr env atomic body) (closes min count)
      (rounds env atomic body min size (count + 1))) := by
  rintro fuel here action ⟨start, found, left, ordered, counted, enough, rfl⟩
  refine ⟨_, _, rfl, rfl, repClause_closes ordered counted, fun item late => ?_⟩
  have pushed : (found.push item.node).size = count + 1 := by rw [Array.size_push, counted]
  dsimp only
  unfold rounds
  rw [pushed]
  cases Clause.beyondLimit env (count + 1) with
  | some limit =>
    change Stops true _ (· = none)
    exact Stops.missed _ rfl
  | none =>
    -- There is a round left, which begins with ignored text.
    obtain ⟨left, rfl⟩ := Nat.exists_eq_add_of_le' (Nat.le_trans (Nat.succ_pos size) enough)
    have begun : (found.push item.node).isEmpty = false := by simp
    dsimp only
    rw [repetition_eq, begun, Bool.false_or]
    refine branch_gap fun stop more => ?_
    exact ⟨start, _, left, (ordered.trans late).trans more, pushed, by omega, rfl⟩

theorem turn_refines (size count : Nat) : (turn env atomic body min (size + 1) count).Refines
    (branch (expr env atomic body) (closing min count)
      (further env atomic body min size (count + 1))) :=
  (turn_opens size count).trans
    (branch_refines (closes_refines min count) (rounds_refines size (count + 1)))

/-- A repetition has rounds enough for any number of them. -/
theorem Takes.rep {input : List Char} {outcome : Option (List Char)} (size : Nat)
    (takes : (turn env atomic body min size 0).Takes env input outcome) :
    (expr env atomic (.rep body min none)).Takes env input outcome := by
  refine (takes.and (Eventually.above size)).succ fun fuel both here action whole front ways => ?_
  obtain ⟨stops, enough⟩ := both
  obtain ⟨rounds, rfl⟩ := Nat.exists_eq_add_of_le' (Nat.lt_of_le_of_lt (Nat.zero_le size) enough)
  refine stops here action whole front ⟨here, #[], rounds, .refl here, rfl, by omega, ?_⟩
  rw [ways]
  exact repetition_eq _ here here rounds #[]

end Repetitions

end Scan

end Peg
