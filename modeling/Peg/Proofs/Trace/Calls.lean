import Peg.Proofs.Machine.Endings
import Peg.Proofs.Trace.Nesting
import Peg.Proofs.Trace.Telling
import Peg.Proofs.Tree.Validity

/-!
# Calls of rules

A call of a rule writes that the rule is tried, then the calls that are made for it, and last how it
ended. What matching writes are calls, one after the other, and nothing else. If a fault breaks it
off, then also the calls that are broken off by the same fault, each inside the one before; of these
there is no last event.

The traces are taken as they are kept, latest event first.
-/
namespace Peg

/-- Calls of rules, one after the other, take the one trace to the other. The last event of a call
tells its result. -/
inductive RuleCalls (env : Env) (input : Input) : List TraceEvent → List TraceEvent → Prop
  /-- No call is made. -/
  | none (trace : List TraceEvent) : RuleCalls env input trace trace
  /-- After other calls, a rule is matched from a state to another. -/
  | rule {trace inner : List TraceEvent} {tag : Nat} {name : String} {kind : RuleKind} {body : Expr}
      {start : Position} {atomic : Bool} {before after : State} {result : Option Match}
      (earlier : RuleCalls env input trace before.trace) (inside : start.input = input)
      (finishes : Finishes env (.rule tag name kind body) start atomic before result after)
      (parts : RuleCalls env input (.entered name start.offset :: before.trace) inner)
      (ends : after.trace = .ending name start result :: inner) :
      RuleCalls env input trace after.trace

/-- Calls of rules, of which the last ones are broken off by a fault, take the one trace to the
other. These entries belong to the calls that are broken off, innermost first. -/
inductive Interrupted (env : Env) (input : Input) (cause : Fault) :
    List TraceEvent → List Entry → List TraceEvent → Prop
  /-- The fault is raised after some calls, by no other call. -/
  | here {trace later : List TraceEvent} (earlier : RuleCalls env input trace later) :
      Interrupted env input cause trace [] later
  /-- After other calls, the matching of a rule is broken off. -/
  | rule {trace : List TraceEvent} {opened : List Entry} {tag : Nat} {name : String}
      {kind : RuleKind} {body : Expr} {start : Position} {atomic : Bool} {before after : State}
      (earlier : RuleCalls env input trace before.trace) (inside : start.input = input)
      (breaks : Breaks env (.rule tag name kind body) start atomic before cause after)
      (parts : Interrupted env input cause (.entered name start.offset :: before.trace) opened
        after.trace) :
      Interrupted env input cause trace (opened ++ [⟨name, start.offset⟩]) after.trace

section Traces

variable {env : Env} {input : Input} {first second third : List TraceEvent}

theorem RuleCalls.trans (early : RuleCalls env input first second)
    (late : RuleCalls env input second third) : RuleCalls env input first third := by
  induction late with
  | none => exact early
  | rule _ inside finishes parts ends ih _ => exact .rule (ih early) inside finishes parts ends

theorem Interrupted.after_calls {cause : Fault} {opened : List Entry}
    (early : RuleCalls env input first second)
    (late : Interrupted env input cause second opened third) :
    Interrupted env input cause first opened third := by
  cases late with
  | here earlier => exact .here (early.trans earlier)
  | rule earlier inside breaks parts => exact .rule (early.trans earlier) inside breaks parts

/-! ### Logs of calls -/

theorem TraceEvent.entered_fits {start : Position} (inside : start.input = input) :
    start.offset ≤ input.size := inside ▸ start.offset_le

/-- A rule that matches ends inside the text, not before its start. -/
theorem Finishes.ending_fits {expr : Expr} {name : String} {start : Position} {atomic : Bool}
    {before after : State} {result : Option Match} (inside : start.input = input)
    (finishes : Finishes env expr start atomic before result after) :
    (TraceEvent.ending name start result).Fits input.size := by
  cases result with
  | none => exact TraceEvent.entered_fits inside
  | some found =>
    have precedes := finishes.tiled.precedes
    have bound := found.stop.offset_le
    rw [precedes.input_eq, inside] at bound
    exact ⟨precedes.offset_le, bound⟩

/-- What calls write is a nested log. -/
theorem RuleCalls.nested (calls : RuleCalls env input first second) :
    ∃ told, second = told.reverse ++ first ∧ Nested input.size told := by
  -- The earlier calls and those that are made for the last one are calls by themselves.
  induction calls with
  | none trace => exact ⟨[], rfl, .nil input.size⟩
  | @rule _ _ _ name _ _ start _ _ _ result earlier inside finishes parts ends early within =>
    obtain ⟨told, before, nested⟩ := early
    obtain ⟨inner, middle, also⟩ := within
    have block : Nested input.size
        (.entered name start.offset :: inner ++ [.ending name start result]) :=
      also.block (TraceEvent.entered_fits inside) (finishes.ending_fits inside)
    refine ⟨_, ?_, nested.append block⟩
    rw [ends, middle, before]
    simp

/-- What calls write that are broken off is the front of a nested log. -/
theorem Interrupted.unfinished {cause : Fault} {opened : List Entry}
    (interrupted : Interrupted env input cause first opened second) :
    ∃ told, second = told.reverse ++ first ∧ Unfinished input.size opened told := by
  induction interrupted with
  | here earlier =>
    obtain ⟨told, before, nested⟩ := earlier.nested
    exact ⟨told, before, .of_nested nested⟩
  | rule earlier inside breaks parts within =>
    obtain ⟨told, before, nested⟩ := earlier.nested
    obtain ⟨inner, after, unfinished⟩ := within
    refine ⟨_, ?_, unfinished.block nested (TraceEvent.entered_fits inside)⟩
    rw [after, before]
    simp

end Traces

/-! ### Matching makes calls -/

/-- What is told by matching at positions of an input. No position is refused there, so that nothing
is said of such a fault. -/
def Telling.calls (env : Env) (input : Input) : Telling where
  whole := RuleCalls env input
  broken cause before after := (∀ error, cause ≠ .position error) →
    ∃ opened, Interrupted env input cause before opened after
  refl := .none
  trans := .trans
  stop _ trace _ := ⟨[], .here (.none trace)⟩
  late early late possible := by
    obtain ⟨opened, interrupted⟩ := late possible
    exact ⟨opened, interrupted.after_calls early⟩

section Rules

variable {env : Env} {name : String} {kind : RuleKind} {start : Position} {before after : State}
  {inner : Option Match}

theorem Action.emit_eq (tracing : env.tracing = true) (event : TraceEvent) (state : State) :
    Action.emit env event state = .done () { state with trace := event :: state.trace } := by
  rw [Action.emit, if_pos tracing]
  rfl

/-- The last event of a rule tells its result, which ends where that of its body does. -/
theorem Clause.rule_eq_done (tracing : env.tracing = true) {result : Option Match}
    (ended : Clause.rule env name kind start inner before = .done result after) :
    after.trace = .ending name start result :: before.trace := by
  cases inner with
  | none =>
    obtain ⟨_, middle, told, went⟩ := Action.bind_eq_done ended
    rw [Action.emit_eq tracing] at told
    cases told
    cases went
    rfl
  | some found =>
    obtain ⟨_, middle, told, went⟩ := Action.bind_eq_done ended
    rw [Action.emit_eq tracing] at told
    cases told
    dsimp only at went
    -- A silent rule hands on what its body gave, any other one wraps it into a node.
    split at went
    · cases went
      rfl
    · obtain ⟨span, later, made, went⟩ := Action.bind_eq_done went
      have same := Action.span_eq_done made
      cases went
      subst same
      rfl

/-- Once its body has ended, a rule can only be broken off by a span that is refused, when it has
told its end. -/
theorem Clause.rule_eq_fault (tracing : env.tracing = true) {cause : Fault}
    (broken : Clause.rule env name kind start inner before = .fault cause after) :
    (∃ error, cause = .position error) ∧
      after.trace = .ending name start inner :: before.trace := by
  cases inner with
  | none =>
    rw [Clause.rule, Action.bind_of_done (Action.emit_eq tracing _ before)] at broken
    cases broken
  | some found =>
    rw [Clause.rule, Action.bind_of_done (Action.emit_eq tracing _ before)] at broken
    dsimp only at broken
    split at broken
    · cases broken
    · unfold Action.span at broken
      cases made : start.spanTo found.stop with
      | ok span => rw [made] at broken; cases broken
      | error error =>
        rw [made] at broken
        cases broken
        exact ⟨⟨error, rfl⟩, rfl⟩

/-- A rule makes a call, if its body does what it does by calls. -/
theorem eval_rule_tells (tracing : env.tracing = true) {input : Input} {fuel : Nat} (tag : Nat)
    (body : Expr) (atomic : Bool) (inside : start.input = input)
    (part : Action.Tells (.calls env input) (eval env fuel body start (kind.bodyAtomic atomic))) :
    Action.Tells (.calls env input)
      (eval env (fuel + 1) (.rule tag name kind body) start atomic) := by
  intro before
  have entered : eval env (fuel + 1) (.rule tag name kind body) start atomic before =
      (Action.withinAny (Clause.ruleScope name kind)
        (eval env fuel body start (kind.bodyAtomic atomic)) >>= Clause.rule env name kind start)
          { before with trace := .entered name start.offset :: before.trace } :=
    Action.bind_of_done (Action.emit_eq tracing _ before)
  have parts := (Action.Tells.elementary (.calls env input) env).withinAny
    (Clause.ruleScope name kind) part
    { before with trace := .entered name start.offset :: before.trace }
  cases tried : Action.withinAny (Clause.ruleScope name kind)
      (eval env fuel body start (kind.bodyAtomic atomic))
      { before with trace := .entered name start.offset :: before.trace } with
  | done inner middle =>
    rw [tried] at parts
    rw [Action.bind_of_done tried] at entered
    cases closed : Clause.rule env name kind start inner middle with
    | done result after =>
      have ended := entered.trans closed
      rw [ended]
      exact .rule (.none before.trace) inside (finishes_iff_eval.mpr ⟨fuel + 1, ended⟩) parts
        (Clause.rule_eq_done tracing closed)
    | fault cause after =>
      -- The span of the node would have to be refused, of which nothing is said.
      rw [entered.trans closed]
      intro possible
      obtain ⟨⟨error, refused⟩, -⟩ := Clause.rule_eq_fault tracing closed
      exact absurd refused (possible error)
    | exhausted =>
      rw [entered.trans closed]
      trivial
  | fault cause after =>
    -- The calls that are broken off inside are the last parts of this one.
    rw [tried] at parts
    have broken := entered.trans (Action.bind_of_fault tried)
    rw [broken]
    intro possible
    obtain ⟨opened, interrupted⟩ := parts possible
    exact ⟨_, .rule (.none before.trace) inside (breaks_iff_eval.mpr ⟨fuel + 1, broken⟩)
      interrupted⟩
  | exhausted =>
    rw [entered.trans (Action.bind_of_exhausted tried)]
    trivial

end Rules

section Matching

variable {env : Env} {expr : Expr} {start : Position} {atomic : Bool} {before after : State}

/-- Whatever is matched, what it tells are calls. -/
theorem eval_tells (tracing : env.tracing = true) (fuel : Nat) (expr : Expr) (start : Position)
    (atomic : Bool) : Action.Tells (.calls env start.input) (eval env fuel expr start atomic) := by
  refine (Action.Tells.elementary (.calls env start.input) env).eval
    (fun here => here.input = start.input) ?_ ?_ fuel expr rfl atomic
  · rintro fuel expr here atomic found inside ⟨before, after, ended⟩
    exact (Builds.of_eval ended found rfl).precedes.input_eq.trans inside
  · intro fuel tag name kind body start atomic inside part
    exact eval_rule_tells tracing tag body atomic inside part

theorem Finishes.calls (tracing : env.tracing = true) {result : Option Match}
    (finishes : Finishes env expr start atomic before result after) :
    RuleCalls env start.input before.trace after.trace := by
  obtain ⟨fuel, ended⟩ := finishes_iff_eval.mp finishes
  have tells := eval_tells tracing fuel expr start atomic before
  rwa [ended] at tells

theorem Breaks.ne_position {cause : Fault}
    (breaks : Breaks env expr start atomic before cause after) (error : PositionError) :
    cause ≠ .position error := by
  rintro rfl
  obtain ⟨fuel, broken⟩ := breaks_iff_eval.mp breaks
  exact (eval_fulfils env (fun _ _ => trivial) fuel expr start atomic rfl).ne_position error broken

theorem Breaks.interrupted (tracing : env.tracing = true) {cause : Fault}
    (breaks : Breaks env expr start atomic before cause after) :
    ∃ opened, Interrupted env start.input cause before.trace opened after.trace := by
  have possible := breaks.ne_position
  obtain ⟨fuel, broken⟩ := breaks_iff_eval.mp breaks
  have tells := eval_tells tracing fuel expr start atomic before
  rw [broken] at tells
  exact tells possible

end Matching

end Peg
