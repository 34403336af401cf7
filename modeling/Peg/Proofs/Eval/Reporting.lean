import Peg.Expr.Build
import Peg.Proofs.Action.Accounts
import Peg.Proofs.Machine.Blindness
import Peg.Proofs.Tree.Building

/-!
# What failures leave behind

An expression that does not match says so: unless the tracker is muted, its failure is recorded, and
no nearer than where the expression was tried. Two kinds of expressions are silent. One fails by
definition and has nothing to say; the other is a repetition that must match more often than it may,
which no constructor makes.

A negative lookahead and ignored text record nothing while they are tried, so that they are not
taken apart here.

## Main result

What matching records are failures inside the input; if there is no match, one of them is at the
place where the expression was tried or beyond it.
-/
namespace Peg

/-! ### Terminals -/

theorem Input.agreement_le {α : Type} [BEq α] (input : Input) (fold : Char → α) (text : List Char)
    {place : Nat} (inside : place ≤ input.size) :
    place + input.agreement fold place text ≤ input.size := by
  induction text generalizing place with
  | nil => exact inside
  | cons c rest ih =>
    simp only [Input.agreement]
    split
    · exact inside
    next actual found =>
      have further : place < input.size := (Array.getElem?_eq_some_iff.mp found).1
      have next : place + 1 ≤ input.size := further
      have onward := ih next
      split <;> omega

namespace Position

variable (here : Position) (text : String) (ignoreCase : Bool)

theorem le_mismatchOffset : here.offset ≤ here.mismatchOffset text ignoreCase :=
  Nat.le_add_right _ _

theorem mismatchOffset_le : here.mismatchOffset text ignoreCase ≤ here.input.size := by
  unfold mismatchOffset
  split <;> exact here.input.agreement_le _ _ here.offset_le

end Position

/-- Where there is no match, and the expression is one that speaks, it has told so. -/
def Told (speaks : Prop) (here : Position) (result : Option Match) (gained : List Recording) :
    Prop :=
  speaks → result = none → Tells here gained

theorem Told.found {speaks : Prop} {here : Position} {found : Match} {gained : List Recording} :
    Told speaks here (some found) gained := fun _ => nofun

namespace Terminal

open Action.Accounts (answer after_same)

variable {input : Input} {speaks : Prop} {here : Position}

theorem told_of_missed (inside : here.input = input) (failure : Failure) {offset : Nat}
    (beyond : here.offset ≤ offset) (bound : offset ≤ here.input.size) :
    Action.Accounts input (Terminal.missed failure offset) (Told speaks here) := by
  refine (Action.Accounts.missed inside failure ?_ ?_).mono fun _ _ tells _ _ => tells
  · exact Int.ofNat_le.mpr beyond
  · exact Int.ofNat_le.mpr bound

theorem told_of_missed_here (inside : here.input = input) (failure : Failure) :
    Action.Accounts input (Terminal.missed failure here.offset) (Told speaks here) :=
  told_of_missed inside failure (Nat.le_refl _) here.offset_le

theorem found_accounts (kind : TerminalKind) (stop : Position) (value : String) :
    Action.Accounts input (Terminal.found kind here stop value) (Told speaks here) :=
  answer here stop _ fun _ => .found

theorem foundText_accounts (kind : TerminalKind) (stop : Position) :
    Action.Accounts input (Terminal.foundText kind here stop) (Told speaks here) :=
  answer here stop _ fun _ => .found

theorem matchLineEnding_accounts (inside : here.input = input)
    (endings : List (String × String)) :
    Action.Accounts input (matchLineEnding here endings) (Told speaks here) := by
  induction endings with
  | nil => exact told_of_missed_here inside _
  | cons ending rest ih =>
    obtain ⟨text, name⟩ := ending
    unfold matchLineEnding
    split
    · exact found_accounts .newline _ name
    · exact ih

/-- Every text that was not found is told, so that at least the first one is. -/
theorem missAll_accounts (inside : here.input = input) (texts : List String) :
    Action.Accounts input (missAll here.input.size texts) (Told (texts ≠ []) here) := by
  induction texts with
  | nil => exact .pure fun some => absurd rfl some
  | cons text rest ih =>
    have bound : (here.offset : Int) ≤ here.input.size := Int.ofNat_le.mpr here.offset_le
    refine (Action.Accounts.track inside (.literal text false) bound le_rfl none nofun).bind
      fun _ gained tells => ih.mono fun result more _ _ _ => ?_
    simpa using tells.among (.refl here) [] more

theorem matchText_accounts (inside : here.input = input) (text : String) :
    Action.Accounts input (matchText here text) fun stop gained => stop = none →
      Tells here gained := by
  unfold matchText
  split
  · exact .pure nofun
  · have beyond := Int.ofNat_le.mpr (here.le_mismatchOffset text false)
    have bound := Int.ofNat_le.mpr (here.mismatchOffset_le text false)
    refine (Action.Accounts.track inside (.literal text false) beyond bound none nofun).bind
      fun _ gained tells => .pure fun _ => ?_
    simpa using tells

theorem matchTop_accounts (kind : TerminalKind) (consume : Stack Span → Stack Span)
    (inside : here.input = input) :
    Action.Accounts input (matchTop kind consume here) (Told speaks here) := by
  rw [matchTop_eq]
  refine after_same (.gets Tracker.same_course _) fun top _ => ?_
  cases top with
  | none => exact told_of_missed_here inside .emptyStack
  | some top =>
    refine (matchText_accounts inside top.text).bind fun stop gained told => ?_
    cases stop with
    | none => exact .pure fun _ _ => by simpa using told rfl
    | some stop =>
      refine after_same (Action.Accounts.changeItems consume) fun _ _ => ?_
      exact answer here stop _ fun _ => .found

theorem matchSlice_accounts (kind : TerminalKind) (consume : Stack Span → Stack Span)
    (start : Int) (stop : Option Int) (inside : here.input = input) :
    Action.Accounts input (matchSlice kind consume start stop here) (Told speaks here) := by
  rw [matchSlice_eq]
  refine after_same (.gets Tracker.same_course _) fun spans _ => ?_
  cases spans with
  | none => exact told_of_missed_here inside (.sliceOutOfBounds start stop)
  | some spans =>
    refine (matchText_accounts inside _).bind fun stop gained told => ?_
    cases stop with
    | none => exact .pure fun _ _ => by simpa using told rfl
    | some stop =>
      refine after_same (Action.Accounts.changeItems consume) fun _ _ => ?_
      exact answer here stop _ fun _ => .found

/-- Every terminal that fails tells so, but for the one that always does. -/
theorem attempt_accounts (leaf : Terminal) (inside : here.input = input) :
    Action.Accounts input (leaf.attempt here) (Told (leaf ≠ .alwaysFail) here) := by
  cases leaf with
  | literal text | insensitive text =>
    simp only [attempt]
    split
    · exact found_accounts _ _ _
    · exact told_of_missed inside _ (here.le_mismatchOffset text _) (here.mismatchOffset_le text _)
  | charRange | any | startOfInput | endOfInput =>
    simp only [attempt]
    split
    · exact found_accounts _ _ _
    · exact told_of_missed_here inside _
  | newline => exact matchLineEnding_accounts inside lineEndings
  | skipUntil first rest =>
    simp only [attempt]
    split
    · exact foundText_accounts _ _
    · refine (missAll_accounts inside (first :: rest)).mono fun _ _ told _ => ?_
      exact told (List.cons_ne_nil first rest)
  | skipChars count =>
    simp only [attempt]
    refine after_same (.ofExcept Tracker.same_course _ _) fun stop _ => ?_
    cases stop with
    | none => exact told_of_missed_here inside _
    | some stop => exact foundText_accounts _ _
  | alwaysFail => exact .pure fun speaks => absurd rfl speaks
  | empty => exact found_accounts _ _ _
  | peek => exact matchTop_accounts .peek id inside
  | pop => exact matchTop_accounts .pop (fun stack => stack.pop.2) inside
  | peekAll => exact matchSlice_accounts .peekAll id 0 none inside
  | popAll => exact matchSlice_accounts .popAll Stack.clear 0 none inside
  | peekSlice start stop => exact matchSlice_accounts .peekSlice id start stop inside
  | drop =>
    rw [attempt_drop]
    refine after_same (.gets Tracker.same_course _) fun top _ => ?_
    cases top with
    | none => exact told_of_missed_here inside .emptyStack
    | some top =>
      refine after_same (Action.Accounts.changeItems _) fun _ _ => ?_
      exact found_accounts _ _ _

end Terminal

/-! ### Expressions that speak -/

namespace Expr

/-- The bounds of a repetition are in order. -/
def InOrder : Expr → Prop
  | rep _ min (some max) => min ≤ max
  | _ => True

/-- The checked constructor makes no repetition whose bounds are not in order. -/
theorem inOrder_of_ofRep {body : Operand} {min : Int} {max : Option Int} {expr : Expr}
    (made : ofRep body min max = .ok expr) : expr.InOrder := by
  unfold ofRep at made
  split at made
  · cases made
  next accepted =>
    cases part : body.toExpr with
    | error error =>
      rw [part] at made
      cases made
    | ok inner =>
      rw [part] at made
      cases made
      cases max with
      | none => trivial
      | some max =>
        have ordered : ¬max < min := by
          intro less
          simp [less] at accepted
        simp only [Option.map_some, InOrder]
        omega

/-- The expression does not fail in silence, unless a part of it does. -/
def Speaks (expr : Expr) : Prop := expr ≠ .terminal .alwaysFail ∧ expr.InOrder

end Expr

/-- What is known of the result of a part: where it ends, and that it tells of its failure. -/
structure Heard (env : Env) (expr : Expr) (here : Position) (result : Option Match)
    (gained : List Recording) : Prop where
  precedes : ∀ found, result = some found → here.Precedes found.stop
  told : Told (Throughout env Expr.Speaks expr) here result gained

/-! ### Loops -/

section Loops

open Action.Accounts (answer after_same)
open Eval

variable {env : Env} {run : Matcher} {input : Input} {start here : Position} {atomic : Bool}
  (parts : ∀ expr here atomic, here.input = input →
    Action.Accounts input (run expr here atomic) (Heard env expr here))

include parts

theorem gapUnless_accounts (forbidden : Bool) (inside : here.input = input) :
    Action.Accounts input (gapUnless run forbidden here) fun there _ => here.Precedes there := by
  cases forbidden with
  | true => exact .pure (.refl here)
  | false =>
    refine (parts .ignored here false inside).bind fun result gained heard => .pure ?_
    cases result with
    | none => exact .refl here
    | some found => exact heard.precedes found rfl

theorem items_accounts (exprs : List Expr) (found : Array (Option Node))
    (ordered : start.Precedes here) (inside : start.input = input) :
    Action.Accounts input (items run atomic start exprs here found)
      (Told (∀ expr ∈ exprs, Throughout env Expr.Speaks expr) start) := by
  induction exprs generalizing here found with
  | nil => exact answer start here _ fun _ => .found
  | cons expr rest ih =>
    have reached := ordered.input_eq.trans inside
    refine (gapUnless_accounts parts _ reached).bind fun there skipped gap => ?_
    refine (parts expr there atomic (gap.input_eq.trans reached)).bind fun result gained heard => ?_
    have onward := ordered.trans gap
    cases result with
    | none =>
      refine .pure fun speak _ => ?_
      exact (heard.told (speak expr List.mem_cons_self) rfl).among onward skipped []
    | some item =>
      -- What the remaining items tell comes after what was recorded so far.
      refine (ih (found.push item.node) (onward.trans (heard.precedes item rfl))).mono
        fun result more told speak missing => ?_
      have tells := told (fun expr among => speak expr (List.mem_cons_of_mem _ among)) missing
      simpa using tells.among (.refl start) (skipped ++ gained) []

/-- The first alternative that fails has told so, whatever comes after it. -/
theorem alternatives_accounts (index : Nat) (exprs : List Expr) (inside : start.input = input) :
    Action.Accounts input (alternatives run atomic start index exprs)
      (Told (exprs ≠ [] ∧ ∀ expr ∈ exprs, Throughout env Expr.Speaks expr) start) := by
  induction exprs generalizing index with
  | nil => exact .pure fun speak => absurd rfl speak.1
  | cons expr rest ih =>
    refine (parts expr start atomic inside).bind fun result gained heard => ?_
    cases result with
    | none =>
      refine (ih (index + 1)).mono fun result more _ speak _ => ?_
      have tells := heard.told (speak.2 expr List.mem_cons_self) rfl
      exact tells.among (.refl start) [] more
    | some found => exact answer start found.stop _ fun _ => .found

omit parts in
/-- A repetition that comes to its end fails only if it has too few items. -/
theorem repClause_accounts (min : Nat) (found : Array (Option Node)) :
    Action.Accounts input (Clause.rep min start here found) fun result _ =>
      result = none → found.size < min := by
  unfold Clause.rep
  split
  next few => exact .pure fun _ => few
  · exact answer start here _ nofun

theorem repetition_accounts (body : Expr) (min : Nat) (max : Option Nat) (fuel : Nat)
    (found : Array (Option Node)) (ordered : start.Precedes here) (inside : start.input = input) :
    Action.Accounts input (repetition env run body min max atomic start fuel here found)
      (Told (Throughout env Expr.Speaks (.rep body min max)) start) := by
  induction fuel generalizing here found with
  | zero => exact .exhausted
  | succ fuel ih =>
    unfold repetition
    split
    next full =>
      -- As many items as there may be are as many as there must be.
      refine (repClause_accounts min found).mono fun result more few speak missing => ?_
      have few := few missing
      cases max with
      | none => cases full
      | some max =>
        have bounds : min ≤ max := speak.self.2
        have size : max ≤ found.size := by simpa using full
        omega
    · have reached := ordered.input_eq.trans inside
      refine (gapUnless_accounts parts _ reached).bind fun there skipped gap => ?_
      refine (parts body there atomic (gap.input_eq.trans reached)).bind
        fun result gained heard => ?_
      have onward := ordered.trans gap
      cases result with
      | none =>
        refine (repClause_accounts min found).mono fun result more _ speak _ => ?_
        exact (heard.told (speak.part .rep) rfl).among onward skipped more
      | some item =>
        have further := onward.trans (heard.precedes item rfl)
        dsimp only
        split
        · have beyond := Int.ofNat_le.mpr item.stop.offset_le
          refine (Action.Accounts.missed (further.input_eq.trans inside) _ le_rfl beyond).mono
            fun _ more tells _ _ => ?_
          simpa using tells.among further (skipped ++ gained) []
        · refine (ih (found.push item.node) further).mono fun result more told speak missing => ?_
          simpa using (told speak missing).among (.refl start) (skipped ++ gained) []

theorem pair_accounts (body : Expr) (inside : start.input = input) :
    Action.Accounts input (pair run body start atomic)
      (Told (Throughout env Expr.Speaks body) start) := by
  refine (parts body start atomic inside).bind fun result gained heard => ?_
  cases result with
  | none =>
    refine .pure fun speak _ => ?_
    simpa using heard.told speak rfl
  | some first =>
    have ordered := heard.precedes first rfl
    refine (parts body first.stop atomic (ordered.input_eq.trans inside)).bind
      fun result more heard => ?_
    cases result with
    | none =>
      refine .pure fun speak _ => ?_
      simpa using (heard.told speak rfl).among ordered gained []
    | some second => exact answer start second.stop _ fun _ => .found

end Loops

/-! ### Single parts -/

section Clauses

open Action.Accounts (answer after_same)

variable {env : Env} {input : Input} {start : Position} {body : Expr}

/-- A lookahead that fails tells so itself. -/
theorem failedPredicate_accounts (positive : Bool) (inside : start.input = input) :
    Action.Accounts input (Action.textOf env body >>= fun label =>
      Action.track (·.recordPredicate positive label start.offset) >>= fun _ =>
        pure (none : Option Match)) fun _ gained => Tells start gained := by
  have bound := Int.ofNat_le.mpr start.offset_le
  refine after_same (.textOf Tracker.same_course env body) fun label _ => ?_
  refine (Action.Accounts.track inside (.predicate positive label) le_rfl bound _ ?_).bind
    fun _ gained tells => .pure (by simpa using tells)
  intro negative
  cases positive with
  | true => cases negative
  | false => exact ⟨label, rfl⟩

theorem positiveNode_accounts (inside : start.input = input) (result : Option Match) :
    Action.Accounts input (Clause.positiveNode env body start result) fun answer gained =>
      answer = none → Tells start gained := by
  cases result with
  | none => exact (failedPredicate_accounts true inside).mono fun _ _ tells _ => tells
  | some found => exact answer start start _ nofun

theorem negativeNode_accounts (inside : start.input = input) (result : Option Match) :
    Action.Accounts input (Clause.negativeNode env body start result) fun answer gained =>
      answer = none → Tells start gained := by
  cases result with
  | none => exact answer start start _ nofun
  | some found => exact (failedPredicate_accounts false inside).mono fun _ _ tells _ => tells

theorem pushClause_accounts (result : Option Match) :
    Action.Accounts input (Clause.push start result) fun answer _ =>
      answer = none → result = none := by
  cases result with
  | none => exact .pure fun _ => rfl
  | some found =>
    refine after_same (.ofExcept Tracker.same_course _ _) fun span _ => ?_
    exact after_same (Action.Accounts.changeItems (·.push span)) fun _ _ => .pure nofun

theorem ruleClause_accounts (name : String) (kind : RuleKind) (result : Option Match) :
    Action.Accounts input (Clause.rule env name kind start result) fun answer _ =>
      answer = none → result = none := by
  cases result with
  | none => exact after_same (.emit Tracker.same_course env _) fun _ _ => .pure fun _ => rfl
  | some found =>
    refine after_same (.emit Tracker.same_course env _) fun _ _ => ?_
    dsimp only
    split
    · exact .pure nofun
    · exact answer start found.stop _ nofun

/-- The scope of a rule never mutes the tracker. -/
theorem ruleScope_accounts {α : Type} {holds : α → List Recording → Prop} (name : String)
    (kind : RuleKind) {action : Action α} (inner : Action.Accounts input action holds) :
    Action.Accounts input (Action.withinAny (Clause.ruleScope name kind) action) holds := by
  unfold Clause.ruleScope
  split
  · exact inner
  · exact inner.within rfl

end Clauses

/-- Ignored text always matches. -/
theorem Finishes.isSome_of_ignored {env : Env} {start : Position} {atomic : Bool}
    {before after : State} {result : Option Match}
    (finishes : Finishes env .ignored start atomic before result after) : result.isSome := by
  obtain ⟨fuel, ended⟩ := finishes.exists_eval
  simp only [eval, Eval.ignored] at ended
  split at ended
  · cases ended
    rfl
  · obtain ⟨stop, middle, _, went⟩ := Action.bind_eq_done ended
    cases went
    rfl

/-! ### Main result -/

open Action.Accounts (answer after_same of_same) in
/-- Matching records sound failures, and it tells of its own. -/
theorem eval_accounts (env : Env) (input : Input) (fuel : Nat) (expr : Expr) (start : Position)
    (atomic : Bool) (inside : start.input = input) :
    Action.Accounts input (eval env fuel expr start atomic)
      (Told (Throughout env Expr.Speaks expr) start) := by
  induction fuel generalizing expr start atomic with
  | zero => exact .exhausted
  | succ fuel ih =>
    have parts : ∀ expr here atomic, here.input = input →
        Action.Accounts input (eval env fuel expr here atomic) (Heard env expr here) := by
      intro expr here atomic inside
      refine (ih expr here atomic inside).answered.mono ?_
      rintro result gained ⟨told, before, after, ended⟩
      exact ⟨fun found matched => (Builds.of_eval ended found matched).precedes, told⟩
    cases expr with
    | terminal leaf =>
      refine (leaf.attempt_accounts inside).mono fun result gained told speak => ?_
      exact told fun silent => speak.self.1 (congrArg Expr.terminal silent)
    | seq first rest =>
      refine (items_accounts parts (first :: rest) #[] (.refl start) inside).mono
        fun result gained told speak => ?_
      exact told fun part among => speak.part (.seq among)
    | choice first rest =>
      refine (alternatives_accounts parts 0 (first :: rest) inside).mono
        fun result gained told speak => ?_
      exact told ⟨List.cons_ne_nil first rest, fun part among => speak.part (.choice among)⟩
    | opt body =>
      rw [eval_opt]
      refine ((ih body start atomic inside).transaction Option.isSome).bind
        fun result gained _ => ?_
      exact answer start _ _ fun _ => .found
    | rep body min max =>
      exact repetition_accounts parts body min max fuel #[] (.refl start) inside
    | positive body =>
      rw [eval_positive]
      have kept : Scope.mutes (.lookahead .positive) = false := rfl
      have heard := (ih body start atomic inside).within kept
      refine (heard.transaction fun _ => false).bind fun result gained _ => ?_
      refine (positiveNode_accounts inside result).mono fun answer more told _ missing => ?_
      simpa using (told missing).among (.refl start) gained []
    | negative body =>
      rw [eval_negative]
      -- What is tried in the lookahead does nothing to the tracker.
      refine after_same (.negative_body env fuel start atomic body) fun result _ => ?_
      exact (negativeNode_accounts inside result).mono fun _ _ told _ => told
    | restorable body =>
      rw [eval_restorable]
      refine ((ih body start atomic inside).transaction _).mono fun result gained told speak => ?_
      exact told (speak.part .restorable)
    | push body =>
      refine (ih body start atomic inside).bind fun result gained told => ?_
      refine (pushClause_accounts result).mono fun answer more missed speak missing => ?_
      exact (told (speak.part .push) (missed missing)).among (.refl start) [] more
    | rule tag name kind body =>
      refine after_same (.emit Tracker.same_course env _) fun _ _ => ?_
      refine (ruleScope_accounts name kind (ih body start _ inside)).bind
        fun result gained told => ?_
      refine (ruleClause_accounts name kind result).mono fun answer more missed speak missing => ?_
      exact (told (speak.part .rule) (missed missing)).among (.refl start) [] more
    | ref name =>
      refine after_same (Action.Accounts.lookupRule env name) fun target reached => ?_
      obtain ⟨before, after, ended⟩ := reached
      have defined := (Action.Meets.lookupRule env name).sound ended
      refine (ih target start atomic inside).mono fun result gained told speak => ?_
      exact told (speak.part (.ref defined))
    | lazy cell =>
      refine after_same (.force Tracker.same_course env cell) fun target reached => ?_
      obtain ⟨before, after, ended⟩ := reached
      have resolved := (Action.Meets.force env cell).sound ended
      refine (ih target start atomic inside).mono fun result gained told speak => ?_
      exact told (speak.part (.lazy resolved))
    | ignored =>
      refine (of_same (.ignored env fuel start atomic)).answered.mono
        fun result gained reached speak missing => ?_
      obtain ⟨-, before, after, ended⟩ := reached
      have finishes : Finishes env .ignored start atomic before result after :=
        finishes_iff_eval.mpr ⟨fuel + 1, ended⟩
      have found := finishes.isSome_of_ignored
      rw [missing] at found
      cases found
    | pair body =>
      refine (pair_accounts parts body inside).mono fun result gained told speak => ?_
      exact told (speak.part .pair)
    | abstract =>
      refine (of_same (.fail Tracker.same_course .noMatcher)).answered.mono ?_
      rintro result gained ⟨-, before, after, ended⟩
      cases ended

end Peg
