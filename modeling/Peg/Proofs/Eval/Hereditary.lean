import Peg.Engine.Eval
import Peg.Proofs.Action.Laws

/-!
# Properties that matching inherits

A property of actions that holds of the smallest ones, and of what is put together from actions that
have it, holds of matching any expression. The stack is treated as a whole here: between the opening
of a snapshot and its settlement stands a part that has the property already, so that a property
need not hold of opening a snapshot alone. The induction over expressions and loops is made once,
and each property only has to be shown of the smallest actions, of scopes and of transactions.

Rules are the only expressions that write to the trace. A property that writing an event does not
have by itself may be shown of a rule as a whole. It may also depend on where a rule is tried, as
far as that is kept from one part to the next. What loops do is said for the parts that they match,
so that it serves for a property that only some expressions have.
-/
namespace Peg

namespace Action

/-- Keeps the changes of the stack after some results, and takes them back after the others. -/
def settle (keep : Option Match → Bool) (result : Option Match) : Action Unit :=
  if keep result then commit else restore

/-- An action under a snapshot of the stack, which is settled by its result. -/
def transaction (keep : Option Match → Bool) (body : Action (Option Match)) :
    Action (Option Match) := do
  snapshot
  let result ← body
  settle keep result
  return result

/-- Changes the stack in a way that it never refuses. -/
def changeItems (change : Stack Span → Stack Span) : Action Unit :=
  modify fun state => { state with stack := change state.stack }

end Action

namespace Terminal

/-! What reads the stack reads an item or a slice of it. -/

theorem matchTop_eq (kind : TerminalKind) (consume : Stack Span → Stack Span) (here : Position) :
    matchTop kind consume here =
      Action.gets (fun state => state.stack.peek?) >>= fun top =>
        match top with
        | none => Action.track (·.recordEmptyStack here.offset) >>= fun _ => pure none
        | some top => matchText here top.text >>= fun stop =>
          match stop with
          | none => pure none
          | some stop =>
            Action.changeItems consume >>= fun _ => found kind here stop top.text := rfl

theorem matchSlice_eq (kind : TerminalKind) (consume : Stack Span → Stack Span) (start : Int)
    (stop : Option Int) (here : Position) :
    matchSlice kind consume start stop here =
      Action.gets (fun state => state.stack.slice? start stop) >>= fun spans =>
        match spans with
        | none => Action.track (·.recordOutOfBounds start stop here.offset) >>= fun _ => pure none
        | some spans => matchSpans kind consume here spans := rfl

theorem attempt_drop (here : Position) : drop.attempt here =
    Action.gets (fun state => state.stack.peek?) >>= fun top =>
      match top with
      | none => Action.track (·.recordEmptyStack here.offset) >>= fun _ => pure none
      | some top => Action.changeItems (fun stack => stack.pop.2) >>= fun _ =>
          found .drop here here top.text := by
  funext ⟨⟨items, log, marks⟩, tracker, trace, forced⟩
  cases items <;> rfl

end Terminal

namespace Clause

/-- The node of an optional part. -/
def optNode (start : Position) (result : Option Match) : Action (Option Match) := do
  let stop := afterGap start result
  let span ← Action.span start stop
  return some ⟨stop, some (.opt span (result.bind Match.node))⟩

theorem opt_eq (start : Position) (result : Option Match) :
    opt start result = Action.settle Option.isSome result >>= fun _ => optNode start result := by
  cases result <;> rfl

/-- What a positive lookahead makes of a result once the stack is restored. -/
def positiveNode (env : Env) (body : Expr) (start : Position) :
    Option Match → Action (Option Match)
  | none => do
    let label ← Action.textOf env body
    Action.track (·.recordPredicate true label start.offset)
    return none
  | some found => do
    let span ← Action.span start start
    return some ⟨start, some (.predicate span true found.node)⟩

theorem positive_eq (env : Env) (body : Expr) (start : Position) (result : Option Match) :
    positive env body start result =
      Action.settle (fun _ => false) result >>= fun _ => positiveNode env body start result := by
  cases result <;> rfl

/-- What a negative lookahead makes of a result once the stack is restored. -/
def negativeNode (env : Env) (body : Expr) (start : Position) :
    Option Match → Action (Option Match)
  | none => do
    let span ← Action.span start start
    return some ⟨start, some (.predicate span false none)⟩
  | some _ => do
    let label ← Action.textOf env body
    Action.track (·.recordPredicate false label start.offset)
    return none

theorem negative_eq (env : Env) (body : Expr) (start : Position) (result : Option Match) :
    negative env body start result =
      Action.settle (fun _ => false) result >>= fun _ => negativeNode env body start result := by
  cases result <;> rfl

theorem restorable_eq (result : Option Match) :
    restorable result = Action.settle Option.isSome result >>= fun _ => pure result := by
  cases result <;> rfl

end Clause

section Transactions

variable (env : Env) (fuel : Nat) (body : Expr) (start : Position) (atomic : Bool)

theorem eval_opt : eval env (fuel + 1) (.opt body) start atomic =
    Action.transaction Option.isSome (eval env fuel body start atomic) >>=
      Clause.optNode start := by
  simp only [eval, Action.transaction, Clause.opt_eq, bind_assoc, pure_bind]

theorem eval_positive : eval env (fuel + 1) (.positive body) start atomic =
    Action.transaction (fun _ => false)
      (Action.within (.lookahead .positive) (eval env fuel body start atomic)) >>=
        Clause.positiveNode env body start := by
  simp only [eval, Action.transaction, Clause.positive_eq, bind_assoc, pure_bind]

theorem eval_negative : eval env (fuel + 1) (.negative body) start atomic =
    Action.transaction (fun _ => false)
      (Action.within (.lookahead .negative) (eval env fuel body start atomic)) >>=
        Clause.negativeNode env body start := by
  simp only [eval, Action.transaction, Clause.negative_eq, bind_assoc, pure_bind]

theorem eval_restorable : eval env (fuel + 1) (.restorable body) start atomic =
    Action.transaction Option.isSome (eval env fuel body start atomic) := by
  simp only [eval, Action.transaction, Clause.restorable_eq]

end Transactions

/-- A failure as matching records it: in no rule, and of a built-in expression only by a name that
one has. -/
inductive Failure.Ordinary : Failure → Prop
  | literal (text : String) (ignoreCase : Bool) : Ordinary (.literal text ignoreCase)
  | charRange (low high : String) : Ordinary (.charRange low high)
  | builtin {name : String} :
      name ∈ ["ANY", "SOI", "EOI", "NEWLINE"] → Ordinary (.builtin name)
  | skipChars (count : Nat) : Ordinary (.builtin (Terminal.skipChars count).text)
  | predicate (positive : Bool) (expr : String) : Ordinary (.predicate positive expr)
  | emptyStack : Ordinary .emptyStack
  | sliceOutOfBounds (start : Int) (stop : Option Int) : Ordinary (.sliceOutOfBounds start stop)
  | repeatLimit (limit : Int) : Ordinary (.repeatLimit limit)

/-- A property of actions that those have of which terminals are made, and that composition keeps.
Nothing is asked of what terminals do not do, nor of the fault that only the text of an expression
can lead to. -/
structure Primitive (P : {α : Type} → Action α → Prop) : Prop where
  pure : ∀ {α : Type} (value : α), P (pure value)
  bind : ∀ {α β : Type} {first : Action α} {next : α → Action β},
    P first → (∀ value, first.Answers value → P (next value)) → P (first >>= next)
  fail : ∀ {α : Type} (cause : Fault), cause ≠ .endlessText → P (Action.fail cause : Action α)
  peek : P (Action.gets fun state => state.stack.peek?)
  slice : ∀ start stop, P (Action.gets fun state => state.stack.slice? start stop)
  pop : P (Action.changeItems fun stack => stack.pop.2)
  clear : P (Action.changeItems Stack.clear)
  push : ∀ span, P (Action.changeItems fun stack => stack.push span)
  track : ∀ {failure : Failure}, failure.Ordinary → ∀ offset kind,
    P (Action.track (·.recordFailure failure offset kind))

/-- Such a property that scopes, snapshots and a lack of fuel keep. Nothing is asked of texts, nor
of what is looked up. -/
structure Composite (P : {α : Type} → Action α → Prop) : Prop extends Primitive P where
  exhausted : ∀ {α : Type}, P (Action.exhausted : Action α)
  within : ∀ {α : Type} (scope : Scope) {body : Action α}, P body → P (Action.within scope body)
  transaction : ∀ (keep : Option Match → Bool) {body : Action (Option Match)},
    P body → P (Action.transaction keep body)

/-- Such a property that all of the smallest actions have. Nothing is asked of the trace, which only
rules write. -/
structure Elementary (env : Env) (P : {α : Type} → Action α → Prop) : Prop extends
    Composite P where
  failedPredicate : ∀ positive body (start : Position), P (Action.textOf env body >>= fun label =>
    Action.track (·.recordPredicate positive label start.offset) >>= fun _ =>
      Pure.pure (none : Option Match))
  force : ∀ cell, P (Action.force env cell)

/-- Such a property that writing an event has as well. -/
structure Hereditary (env : Env) (P : {α : Type} → Action α → Prop) : Prop extends
    Elementary env P where
  emit : ∀ event, P (Action.emit env event)

namespace Primitive

variable {P : {α : Type} → Action α → Prop} (primitive : Primitive P)

include primitive

theorem ofExcept {ε α : Type} (fault : ε → Fault) (other : ∀ error, fault error ≠ .endlessText)
    (result : Except ε α) : P (Action.ofExcept fault result) := by
  cases result with
  | ok value => exact primitive.pure value
  | error error => exact primitive.fail (fault error) (other error)

theorem span (start stop : Position) : P (Action.span start stop) :=
  primitive.ofExcept .position (fun _ => nofun) _

/-- An answer with a node over a span. -/
theorem answer (start stop : Position) (node : Span → Option Match) :
    P (Action.span start stop >>= fun span => Pure.pure (node span)) :=
  primitive.bind (primitive.span start stop) fun _ _ => primitive.pure _

theorem failure {α : Type} {failure : Failure} (ordinary : failure.Ordinary) (offset : Int)
    (kind : Option Lookahead) (value : α) :
    P (Action.track (·.recordFailure failure offset kind) >>= fun _ => Pure.pure value) :=
  primitive.bind (primitive.track ordinary offset kind) fun _ _ => primitive.pure value

/-! ### Terminals -/

theorem matchLineEnding (here : Position) (endings : List (String × String)) :
    P (Terminal.matchLineEnding here endings) := by
  induction endings with
  | nil => exact primitive.failure (.builtin (by decide)) _ _ none
  | cons ending rest ih =>
    obtain ⟨text, name⟩ := ending
    unfold Terminal.matchLineEnding
    split
    · exact primitive.answer here _ _
    · exact ih

theorem missAll (offset : Nat) (texts : List String) : P (Terminal.missAll offset texts) := by
  induction texts with
  | nil => exact primitive.pure none
  | cons text rest ih =>
    exact primitive.bind (primitive.track (.literal text false) _ _) fun _ _ => ih

theorem matchText (here : Position) (text : String) : P (Terminal.matchText here text) := by
  unfold Terminal.matchText
  split
  · exact primitive.pure _
  · exact primitive.failure (.literal text false) _ _ none

theorem matchTop (kind : TerminalKind) {consume : Stack Span → Stack Span}
    (consumed : P (Action.changeItems consume)) (here : Position) :
    P (Terminal.matchTop kind consume here) := by
  rw [Terminal.matchTop_eq]
  refine primitive.bind primitive.peek fun top _ => ?_
  cases top with
  | none => exact primitive.failure .emptyStack _ _ none
  | some top =>
    refine primitive.bind (primitive.matchText here top.text) fun stop _ => ?_
    cases stop with
    | none => exact primitive.pure none
    | some stop => exact primitive.bind consumed fun _ _ => primitive.answer here stop _

theorem matchSlice (kind : TerminalKind) {consume : Stack Span → Stack Span}
    (consumed : P (Action.changeItems consume)) (start : Int) (stop : Option Int)
    (here : Position) : P (Terminal.matchSlice kind consume start stop here) := by
  rw [Terminal.matchSlice_eq]
  refine primitive.bind (primitive.slice start stop) fun spans _ => ?_
  cases spans with
  | none => exact primitive.failure (.sliceOutOfBounds start stop) _ _ none
  | some spans =>
    refine primitive.bind (primitive.matchText here _) fun stop _ => ?_
    cases stop with
    | none => exact primitive.pure none
    | some stop => exact primitive.bind consumed fun _ _ => primitive.answer here stop _

theorem attempt (leaf : Terminal) (here : Position) : P (leaf.attempt here) := by
  -- What only looks at the stack changes it by nothing.
  have kept : P (Action.changeItems id) := primitive.pure ()
  cases leaf with
  | literal | insensitive | charRange =>
    simp only [Terminal.attempt]
    split
    · exact primitive.answer here _ _
    · exact primitive.failure (by constructor) _ _ none
  | any | startOfInput | endOfInput =>
    simp only [Terminal.attempt]
    split
    · exact primitive.answer here _ _
    · exact primitive.failure (.builtin (by decide)) _ _ none
  | newline => exact primitive.matchLineEnding here _
  | skipUntil first rest =>
    simp only [Terminal.attempt]
    split
    · exact primitive.answer here _ _
    · exact primitive.missAll _ _
  | skipChars count =>
    refine primitive.bind (primitive.ofExcept .position (fun _ => nofun) _) fun stop _ => ?_
    cases stop with
    | none => exact primitive.failure (.skipChars count) _ _ none
    | some stop => exact primitive.answer here stop _
  | alwaysFail => exact primitive.pure none
  | empty => exact primitive.answer here here _
  | peek => exact primitive.matchTop .peek kept here
  | pop => exact primitive.matchTop .pop primitive.pop here
  | peekAll => exact primitive.matchSlice .peekAll kept 0 none here
  | popAll => exact primitive.matchSlice .popAll primitive.clear 0 none here
  | peekSlice start stop => exact primitive.matchSlice .peekSlice kept start stop here
  | drop =>
    rw [Terminal.attempt_drop]
    refine primitive.bind primitive.peek fun top _ => ?_
    cases top with
    | none => exact primitive.failure .emptyStack _ _ none
    | some top => exact primitive.bind primitive.pop fun _ _ => primitive.answer here here _

end Primitive

namespace Composite

open Eval

variable {env : Env} {P : {α : Type} → Action α → Prop} (composite : Composite P)

include composite

/-! ### Clauses -/

theorem lookupRule (name : String) : P (Action.lookupRule env name) := by
  unfold Action.lookupRule
  split
  · exact composite.pure _
  · exact composite.fail _ nofun

theorem withinAny {α : Type} (scope? : Option Scope) {body : Action α} (part : P body) :
    P (Action.withinAny scope? body) := by
  cases scope? with
  | none => exact part
  | some scope => exact composite.within scope part

theorem pushClause (start : Position) (result : Option Match) : P (Clause.push start result) := by
  cases result with
  | none => exact composite.pure none
  | some found =>
    exact composite.bind (composite.span _ _) fun span _ =>
      composite.bind (composite.push span) fun _ _ => composite.pure _

theorem repClause (min : Nat) (start stop : Position) (items : Array (Option Node)) :
    P (Clause.rep min start stop items) := by
  unfold Clause.rep
  split
  · exact composite.pure none
  · exact composite.answer start stop _

/-! ### Loops

The parts of an expression are only matched at certain positions. A part that matches there leads to
another one of them. -/

section Loops

variable {Inside : Position → Prop} {run : Matcher}
  (onward : ∀ {expr here atomic found}, Inside here →
    (run expr here atomic).Answers (some found) → Inside found.stop)

omit composite in
include onward in
theorem inside_afterGap {here : Position} {result : Option Match} (inside : Inside here)
    (answers : (run .ignored here false).Answers result) :
    Inside (Clause.afterGap here result) := by
  cases result with
  | none => exact inside
  | some found => exact onward inside answers

omit composite in
include onward in
theorem inside_gapUnless {forbidden : Bool} {here there : Position} (inside : Inside here)
    (answers : (Eval.gapUnless run forbidden here).Answers there) : Inside there := by
  obtain ⟨before, after, ended⟩ := answers
  cases forbidden with
  | true =>
    cases ended
    exact inside
  | false =>
    obtain ⟨result, middle, skipped, went⟩ := Action.bind_eq_done ended
    cases went
    exact inside_afterGap onward inside ⟨before, _, skipped⟩

omit composite in
include onward in
theorem inside_skipOne {skipper : Expr} {fuel : Nat} {here : Position} {progress : Bool}
    {reached : Position × Bool} (inside : Inside here)
    (answers : (Eval.skipOne run skipper fuel here progress).Answers reached) :
    Inside reached.1 := by
  obtain ⟨before, after, ended⟩ := answers
  induction fuel generalizing here progress before with
  | zero => cases ended
  | succ fuel ih =>
    obtain ⟨result, middle, tried, went⟩ := Action.bind_eq_done ended
    cases result with
    | none =>
      cases went
      exact inside
    | some found =>
      dsimp only at went
      split at went
      · cases went
        exact inside
      · exact ih (onward inside ⟨before, middle, tried⟩) middle went

/-- Ignored text is only matched where it may stand. -/
theorem gapUnless {forbidden : Bool} {here : Position}
    (gap : forbidden = false → P (run .ignored here false)) :
    P (Eval.gapUnless run forbidden here) := by
  cases forbidden with
  | true => exact composite.pure here
  | false => exact composite.bind (gap rfl) fun _ _ => composite.pure _

theorem alternatives {atomic : Bool} {start : Position} (index : Nat) {exprs : List Expr}
    (parts : ∀ expr ∈ exprs, P (run expr start atomic)) :
    P (Eval.alternatives run atomic start index exprs) := by
  induction exprs generalizing index with
  | nil => exact composite.pure none
  | cons expr rest ih =>
    rw [List.forall_mem_cons] at parts
    refine composite.bind parts.1 fun result _ => ?_
    cases result with
    | none => exact ih (index + 1) parts.2
    | some found => exact composite.answer start found.stop _

include onward

section Gaps

variable {atomic : Bool}
  (gaps : atomic = false → ∀ here, Inside here → P (run .ignored here false))

include gaps

theorem items (start : Position) {exprs : List Expr}
    (parts : ∀ expr ∈ exprs, ∀ here, Inside here → P (run expr here atomic)) {here : Position}
    (inside : Inside here) (found : Array (Option Node)) :
    P (Eval.items run atomic start exprs here found) := by
  induction exprs generalizing here found with
  | nil => exact composite.answer start here _
  | cons expr rest ih =>
    rw [List.forall_mem_cons] at parts
    have gap : P (Eval.gapUnless run (found.isEmpty || atomic) here) :=
      composite.gapUnless fun allowed => gaps (Bool.or_eq_false_iff.mp allowed).2 here inside
    refine composite.bind gap fun here skipped => ?_
    have inside := inside_gapUnless onward inside skipped
    refine composite.bind (parts.1 here inside) fun result tried => ?_
    cases result with
    | none => exact composite.pure none
    | some item => exact ih parts.2 (onward inside tried) (found.push item.node)

theorem repetition {body : Expr} (part : ∀ here, Inside here → P (run body here atomic)) (min : Nat)
    (max : Option Nat) (start : Position) (fuel : Nat) {here : Position} (inside : Inside here)
    (found : Array (Option Node)) :
    P (Eval.repetition env run body min max atomic start fuel here found) := by
  induction fuel generalizing here found with
  | zero => exact composite.exhausted
  | succ fuel ih =>
    have gap : P (Eval.gapUnless run (found.isEmpty || atomic) here) :=
      composite.gapUnless fun allowed => gaps (Bool.or_eq_false_iff.mp allowed).2 here inside
    simp only [Eval.repetition]
    split
    · exact composite.repClause min start here found
    · refine composite.bind gap fun here skipped => ?_
      have inside := inside_gapUnless onward inside skipped
      refine composite.bind (part here inside) fun result tried => ?_
      cases result with
      | none => exact composite.repClause min start here found
      | some item =>
        dsimp only
        split
        · exact composite.failure (.repeatLimit _) _ _ none
        · exact ih (onward inside tried) (found.push item.node)

end Gaps

theorem skipOne {skipper : Expr} (part : ∀ here, Inside here → P (run skipper here true))
    (fuel : Nat) {here : Position} (inside : Inside here) (progress : Bool) :
    P (Eval.skipOne run skipper fuel here progress) := by
  induction fuel generalizing here progress with
  | zero => exact composite.exhausted
  | succ fuel ih =>
    refine composite.bind (part here inside) fun result tried => ?_
    cases result with
    | none => exact composite.pure _
    | some found =>
      dsimp only
      split
      · exact composite.pure _
      · exact ih (onward inside tried) true

theorem skipEach {skippers : List Expr}
    (parts : ∀ skipper ∈ skippers, ∀ here, Inside here → P (run skipper here true)) (fuel : Nat)
    {here : Position} (inside : Inside here) (progress : Bool) :
    P (Eval.skipEach run fuel skippers here progress) := by
  induction skippers generalizing here progress with
  | nil => exact composite.pure _
  | cons skipper rest ih =>
    rw [List.forall_mem_cons] at parts
    exact composite.bind (composite.skipOne onward parts.1 fuel inside progress)
      fun reached skipped => ih parts.2 (inside_skipOne onward inside skipped) reached.2

omit composite in
theorem inside_skipEach {fuel : Nat} {skippers : List Expr} {here : Position} {progress : Bool}
    {reached : Position × Bool} (inside : Inside here)
    (answers : (Eval.skipEach run fuel skippers here progress).Answers reached) :
    Inside reached.1 := by
  obtain ⟨before, after, ended⟩ := answers
  induction skippers generalizing here progress before with
  | nil =>
    cases ended
    exact inside
  | cons skipper rest ih =>
    obtain ⟨first, middle, skipped, went⟩ := Action.bind_eq_done ended
    exact ih (inside_skipOne onward inside ⟨before, middle, skipped⟩) middle went

theorem skipAll {skippers : List Expr}
    (parts : ∀ skipper ∈ skippers, ∀ here, Inside here → P (run skipper here true)) (fuel : Nat)
    {here : Position} (inside : Inside here) : P (Eval.skipAll run skippers fuel here) := by
  induction fuel generalizing here with
  | zero => exact composite.exhausted
  | succ fuel ih =>
    refine composite.bind (composite.skipEach onward parts fuel inside false)
      fun reached skipped => ?_
    dsimp only
    split
    · exact ih (inside_skipEach onward inside skipped)
    · exact composite.pure _

theorem ignored (parts : ∀ skipper ∈ env.skippers, ∀ here, Inside here → P (run skipper here true))
    (fuel : Nat) {start : Position} (inside : Inside start) (atomic : Bool) :
    P (Eval.ignored env run fuel start atomic) := by
  unfold Eval.ignored
  split
  · exact composite.pure _
  · exact composite.bind (composite.within .muted (composite.skipAll onward parts fuel inside))
      fun _ _ => composite.pure _

theorem pair {body : Expr} {atomic : Bool} (part : ∀ here, Inside here → P (run body here atomic))
    {start : Position} (inside : Inside start) : P (Eval.pair run body start atomic) := by
  refine composite.bind (part start inside) fun result tried => ?_
  cases result with
  | none => exact composite.pure none
  | some first =>
    refine composite.bind (part first.stop (onward inside tried)) fun result _ => ?_
    cases result with
    | none => exact composite.pure none
    | some second => exact composite.answer start second.stop _

end Loops

end Composite

namespace Elementary

variable {env : Env} {P : {α : Type} → Action α → Prop} (elementary : Elementary env P)

include elementary

theorem positiveNode (body : Expr) (start : Position) (result : Option Match) :
    P (Clause.positiveNode env body start result) := by
  cases result with
  | none => exact elementary.failedPredicate true body start
  | some found => exact elementary.answer start start _

theorem negativeNode (body : Expr) (start : Position) (result : Option Match) :
    P (Clause.negativeNode env body start result) := by
  cases result with
  | none => exact elementary.answer start start _
  | some found => exact elementary.failedPredicate false body start

/-- An elementary property holds of matching any expression, whatever the fuel, if it holds of
matching a rule whose body has it. -/
theorem eval (Inside : Position → Prop)
    (onward : ∀ {fuel expr here atomic found}, Inside here →
      (Peg.eval env fuel expr here atomic).Answers (some found) → Inside found.stop)
    (rule : ∀ {fuel : Nat} (tag : Nat) (name : String) (kind : RuleKind) (body : Expr)
      {start : Position} (atomic : Bool), Inside start →
      P (Peg.eval env fuel body start (kind.bodyAtomic atomic)) →
        P (Peg.eval env (fuel + 1) (.rule tag name kind body) start atomic))
    (fuel : Nat) (expr : Expr) {start : Position} (inside : Inside start) (atomic : Bool) :
    P (Peg.eval env fuel expr start atomic) := by
  induction fuel generalizing expr start atomic with
  | zero => exact elementary.exhausted
  | succ fuel ih =>
    -- Every loop of an expression has the property if what matches its parts has.
    have part (expr : Expr) (atomic : Bool) (here : Position) (inside : Inside here) :=
      ih expr inside atomic
    have parts (exprs : List Expr) (atomic : Bool) :
        ∀ expr ∈ exprs, ∀ here, Inside here → P (Peg.eval env fuel expr here atomic) :=
      fun expr _ => part expr atomic
    have gaps (_ : atomic = false) := part .ignored false
    cases expr with
    | terminal leaf => exact elementary.attempt leaf start
    | seq first rest =>
      exact elementary.items onward gaps start (parts (first :: rest) atomic) inside #[]
    | choice first rest =>
      exact elementary.alternatives 0 fun expr _ => part expr atomic start inside
    | opt body =>
      -- The snapshot and its settlement are taken together with the part between them.
      rw [eval_opt]
      exact elementary.bind (elementary.transaction _ (part body atomic start inside))
        fun _ _ => elementary.answer start _ _
    | rep body min max =>
      exact elementary.repetition onward gaps (part body atomic) min max start fuel inside #[]
    | positive body =>
      rw [eval_positive]
      exact elementary.bind
        (elementary.transaction _ (elementary.within _ (part body atomic start inside)))
        fun result _ => elementary.positiveNode body start result
    | negative body =>
      rw [eval_negative]
      exact elementary.bind
        (elementary.transaction _ (elementary.within _ (part body atomic start inside)))
        fun result _ => elementary.negativeNode body start result
    | restorable body =>
      rw [eval_restorable]
      exact elementary.transaction _ (part body atomic start inside)
    | push body =>
      exact elementary.bind (part body atomic start inside)
        fun result _ => elementary.pushClause start result
    | rule tag name kind body =>
      exact rule tag name kind body atomic inside (part body _ start inside)
    | ref name =>
      exact elementary.bind (elementary.lookupRule name) fun target _ => part target _ _ inside
    | lazy cell =>
      exact elementary.bind (elementary.force cell) fun target _ => part target _ _ inside
    | ignored => exact elementary.ignored onward (parts env.skippers true) fuel inside atomic
    | pair body => exact elementary.pair onward (part body atomic) inside
    | abstract => exact elementary.fail .noMatcher nofun

end Elementary

namespace Hereditary

variable {env : Env} {P : {α : Type} → Action α → Prop} (hereditary : Hereditary env P)

include hereditary

theorem ruleClause (name : String) (kind : RuleKind) (start : Position) (result : Option Match) :
    P (Clause.rule env name kind start result) := by
  cases result with
  | none => exact hereditary.bind (hereditary.emit _) fun _ _ => hereditary.pure none
  | some found =>
    refine hereditary.bind (hereditary.emit _) fun _ _ => ?_
    dsimp only
    split
    · exact hereditary.pure _
    · exact hereditary.answer start found.stop _

theorem skipAll {run : Eval.Matcher} (parts : ∀ expr here atomic, P (run expr here atomic))
    (skippers : List Expr) (fuel : Nat) (here : Position) :
    P (Eval.skipAll run skippers fuel here) :=
  @Composite.skipAll P hereditary.toComposite (fun _ => True) run (fun _ _ => trivial) skippers
    (fun skipper _ here _ => parts skipper here true) fuel here trivial

/-- A hereditary property holds of matching any expression, whatever the fuel. -/
theorem eval (fuel : Nat) (expr : Expr) (start : Position) (atomic : Bool) :
    P (Peg.eval env fuel expr start atomic) := by
  refine hereditary.toElementary.eval (fun _ => True) (fun _ _ => trivial) ?_ fuel expr trivial
    atomic
  intro fuel tag name kind body start atomic _ part
  refine hereditary.bind (hereditary.emit _) fun _ _ => ?_
  exact hereditary.bind (hereditary.withinAny _ part)
    fun result _ => hereditary.ruleClause name kind start result

end Hereditary

end Peg
