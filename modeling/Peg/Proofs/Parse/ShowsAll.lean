import Peg.Engine.Parse
import Peg.Proofs.Action.Simulation
import Peg.Proofs.Eval.Hereditary
import Peg.Proofs.Expr.Texts
import Peg.Proofs.Machine.Agreement

/-!
# Where all texts end

Matching is broken off for want of a text only where an expression is shown that has none. If every
expression has a text, whatever was looked up, this never happens. That is so of any definitions
whose texts end, and in particular where there are none.
-/
namespace Peg

/-- The action is never broken off for want of a text. -/
def Action.ShowsAll {α : Type} (action : Action α) : Prop := ∀ state, ¬(action state).Endless

namespace Action.ShowsAll

variable {α β : Type}

theorem pure (value : α) : ShowsAll (Pure.pure value : Action α) := by rintro state ⟨_, ⟨⟩⟩

theorem gets (read : State → α) : ShowsAll (Action.gets read) := by rintro state ⟨_, ⟨⟩⟩

theorem modify (change : State → State) : ShowsAll (Action.modify change) := by
  rintro state ⟨_, ⟨⟩⟩

theorem exhausted : ShowsAll (Action.exhausted : Action α) := by rintro state ⟨_, ⟨⟩⟩

theorem fail {cause : Fault} (other : cause ≠ .endlessText) :
    ShowsAll (Action.fail cause : Action α) := by
  rintro state ⟨_, broken⟩
  cases broken
  exact other rfl

theorem bind_answers {first : Action α} {next : α → Action β} (early : ShowsAll first)
    (late : ∀ value, first.Answers value → ShowsAll (next value)) : ShowsAll (first >>= next) := by
  intro state endless
  cases began : first state with
  | done value middle =>
    rw [bind_of_done began] at endless
    exact late value ⟨state, middle, began⟩ middle endless
  | fault cause after =>
    obtain ⟨_, broken⟩ := endless
    cases (bind_of_fault began).symm.trans broken
    exact early state ⟨after, began⟩
  | exhausted =>
    obtain ⟨_, broken⟩ := endless
    cases (bind_of_exhausted began).symm.trans broken

theorem bind {first : Action α} {next : α → Action β} (early : ShowsAll first)
    (late : ∀ value, ShowsAll (next value)) : ShowsAll (first >>= next) :=
  bind_answers early fun value _ => late value

theorem ofExcept {ε : Type} (fault : ε → Fault) (other : ∀ error, fault error ≠ .endlessText)
    (result : Except ε α) : ShowsAll (Action.ofExcept fault result) := by
  cases result with
  | ok value => exact pure value
  | error error => exact fail (other error)

theorem emit (env : Env) (event : TraceEvent) : ShowsAll (Action.emit env event) := by
  unfold Action.emit
  split
  · exact modify _
  · exact pure ()

theorem changeStack (change : Stack Span → Except StackError (Stack Span)) :
    ShowsAll (Action.changeStack change) :=
  bind (gets _) fun _ => bind (ofExcept .stack (fun _ => nofun) _) fun _ => modify _

theorem settle (keep : Option Match → Bool) (result : Option Match) :
    ShowsAll (Action.settle keep result) := by
  unfold Action.settle
  split
  · exact changeStack _
  · exact changeStack _

theorem within (scope : Scope) {body : Action α} (inner : ShowsAll body) :
    ShowsAll (Action.within scope body) := by
  rintro state ⟨after, broken⟩
  have part := inner { state with tracker := state.tracker.enter scope }
  unfold Action.within at broken
  generalize body { state with tracker := state.tracker.enter scope } = outcome at broken part
  cases outcome with
  | done value left | exhausted => cases broken
  | fault cause left =>
    cases broken
    exact part ⟨left, rfl⟩

theorem composite : Composite ShowsAll where
  pure := pure
  bind := bind_answers
  exhausted := exhausted
  fail _ other := fail other
  peek := gets _
  slice _ _ := gets _
  pop := modify _
  clear := modify _
  push _ := modify _
  track _ _ _ := modify _
  within := within
  transaction keep _ inner := bind (modify _) fun _ => bind inner fun result =>
    bind (settle keep result) fun _ => pure result

variable {env : Env}

/-- A text that is there, whatever was looked up, is shown. -/
theorem textOf {expr : Expr} (text : ∀ forced, expr.text env.definitions forced ≠ none) :
    ShowsAll (Action.textOf env expr) := by
  intro state endless
  obtain ⟨text, shown⟩ := Option.ne_none_iff_exists'.mp (text state.forced)
  rw [textOf_of_some shown] at endless
  obtain ⟨_, broken⟩ := endless
  cases broken

theorem failedPredicate {body : Expr} (text : ∀ forced, body.text env.definitions forced ≠ none)
    (positive : Bool) (start : Position) : ShowsAll (Action.textOf env body >>= fun label =>
      Action.track (·.recordPredicate positive label start.offset) >>= fun _ =>
        Pure.pure (none : Option Match)) :=
  bind (textOf text) fun _ => bind (modify _) fun _ => pure none

section Loops

/-! What loops match atomically, they match one after the other. -/

variable {run : Eval.Matcher}

theorem items (start : Position) {exprs : List Expr}
    (parts : ∀ expr ∈ exprs, ∀ here, ShowsAll (run expr here true)) (here : Position)
    (found : Array (Option Node)) : ShowsAll (Eval.items run true start exprs here found) :=
  @Composite.items _ composite (fun _ => True) run (fun _ _ => trivial) true
    (fun gap => nomatch gap) start exprs (fun expr among here _ => parts expr among here) here
    trivial found

theorem repetition {body : Expr} (part : ∀ here, ShowsAll (run body here true)) (min : Nat)
    (max : Option Nat) (start : Position) (fuel : Nat) (here : Position)
    (found : Array (Option Node)) :
    ShowsAll (Eval.repetition env run body min max true start fuel here found) :=
  @Composite.repetition env _ composite (fun _ => True) run (fun _ _ => trivial) true
    (fun gap => nomatch gap) body (fun here _ => part here) min max start fuel here trivial found

end Loops

section Expressions

variable {expr body : Expr} {start : Position} {atomic : Bool} {fuel : Nat}

theorem positive (text : ∀ forced, body.text env.definitions forced ≠ none)
    (part : ShowsAll (eval env fuel body start atomic)) :
    ShowsAll (eval env (fuel + 1) (.positive body) start atomic) := by
  rw [eval_positive]
  refine bind (composite.transaction _ (within _ part)) fun result => ?_
  cases result with
  | none => exact failedPredicate text true start
  | some found => exact composite.answer start start _

theorem negative (text : ∀ forced, body.text env.definitions forced ≠ none)
    (part : ShowsAll (eval env fuel body start atomic)) :
    ShowsAll (eval env (fuel + 1) (.negative body) start atomic) := by
  rw [eval_negative]
  refine bind (composite.transaction _ (within _ part)) fun result => ?_
  cases result with
  | none => exact composite.answer start start _
  | some found => exact failedPredicate text false start

/-- The machine is broken off as the recursive evaluation is. -/
theorem of_eval (shows : ∀ fuel, ShowsAll (eval env fuel expr start atomic)) (moves : Nat) :
    ShowsAll (Peg.run env moves expr start atomic) := by
  rintro state ⟨after, broken⟩
  obtain ⟨fuel, same⟩ := Machine.eval_of_run fun endless => nomatch broken.symm.trans endless
  exact shows fuel state ⟨after, same.trans broken⟩

theorem of_run (shows : ∀ moves, ShowsAll (Peg.run env moves expr start atomic)) (fuel : Nat) :
    ShowsAll (eval env fuel expr start atomic) := by
  rintro state ⟨after, broken⟩
  obtain ⟨moves, same⟩ := Machine.run_of_eval fun endless => nomatch broken.symm.trans endless
  exact shows moves state ⟨after, same.trans broken⟩

end Expressions

variable (texts : env.definitions.TextsEnd)

include texts

theorem hereditary : Hereditary env ShowsAll where
  toComposite := composite
  failedPredicate positive body start := failedPredicate (texts · body) positive start
  emit := emit env
  force _ := bind (ofExcept .build (fun _ => nofun) _) fun target =>
    bind (modify _) fun _ => pure target

theorem run (fuel : Nat) (expr : Expr) (start : Position) (atomic : Bool) :
    ShowsAll (Peg.run env fuel expr start atomic) :=
  of_eval (fun enough => (hereditary texts).eval enough expr start atomic) fuel

omit texts in
theorem reportFailure : ShowsAll (Peg.reportFailure env) :=
  bind (gets _) fun _ => bind (emit env _) fun _ => pure _

theorem parsePartial (fuel : Nat) (expr : Expr) : ShowsAll (Peg.parsePartial env fuel expr) := by
  refine bind (run texts fuel expr _ false) fun result => ?_
  cases result with
  | some found => exact pure _
  | none => exact reportFailure

theorem matchRest (fuel : Nat) (expr : Expr) (here : Position) :
    ShowsAll (Peg.matchRest env fuel expr here) := by
  unfold Peg.matchRest
  split
  · exact pure here
  · exact bind (run texts fuel .ignored here false) fun _ => pure _

theorem parse (fuel : Nat) (expr : Expr) : ShowsAll (Peg.parse env fuel expr) := by
  refine bind (parsePartial texts fuel expr) fun parsed => ?_
  cases parsed with
  | error report => exact pure _
  | ok found =>
    refine bind (matchRest texts fuel expr found.stop) fun stop => ?_
    refine bind (run texts fuel (.terminal .endOfInput) stop false) fun result => ?_
    cases result with
    | some last => exact pure _
    | none => exact reportFailure

end Action.ShowsAll

end Peg
