import Peg.Proofs.Coupling.Actions
import Peg.Proofs.Tree.Entries

/-!
# What a coupling has to respect

A coupling is lawful if expressions that correspond are made in the same way of parts that
correspond, and if what the clauses, the terminals and the scopes do to places, nodes and trackers
that correspond leads to such again. References and lazy expressions are the exception: one side may
follow them where the other has what they stand for already.

## Main result

Under a lawful coupling, what matches an expression on one side is followed by what matches a
corresponding expression on the other.
-/
namespace Peg

open List (Forall₂)
open Peg.Action (Coupled Follows)

section Related

variable {related : Tracker → Tracker → Prop} {left right : Tracker}

theorem Tracker.enterAny_related
    (enter : ∀ scope, related left right → related (left.enter scope) (right.enter scope))
    (scope? : Option Scope) (both : related left right) :
    related (left.enterAny scope?) (right.enterAny scope?) := by
  cases scope? with
  | some scope => exact enter scope both
  | none => exact both

theorem Tracker.leaveAny_related
    (leave : ∀ scope, related left right → related (left.leave scope) (right.leave scope))
    (scope? : Option Scope) (both : related left right) :
    related (left.leaveAny scope?) (right.leaveAny scope?) := by
  cases scope? with
  | some scope => exact leave scope both
  | none => exact both

end Related

/-- What runs inside a scope finds it open and leaves it closed. -/
theorem Action.withinAny_apply {α : Type} (scope? : Option Scope) (body : Action α)
    (state : State) :
    Action.withinAny scope? body state =
      match body { state with tracker := state.tracker.enterAny scope? } with
      | .done value after =>
        .done value { after with tracker := after.tracker.leaveAny scope? }
      | .fault cause after =>
        .fault cause { after with tracker := after.tracker.leaveAny scope? }
      | .exhausted => .exhausted := by
  cases scope? with
  | some scope => rfl
  | none =>
    change body state = _
    cases ended : body state <;> simp only [Tracker.enterAny, Tracker.leaveAny, ended]

/-- What the match of a rule's body becomes. -/
def Clause.ruleNode (name : String) (kind : RuleKind) (span : Span) (child : Option Node) :
    Option Node :=
  if kind = .silent then child
  else some (.rule name span (if kind = .atomic then none else child))

/-- A rule that matched makes its node over the span of the match, if the match is in order. -/
theorem Clause.rule_some (env : Env) {name : String} {kind : RuleKind} {start : Position}
    {found : Match} (ordered : start.Precedes found.stop) :
    ∃ span, start.spanTo found.stop = .ok span ∧
      rule env name kind start (some found) =
        Action.emit env (.matched name start.offset found.stop.offset) >>= fun _ =>
          pure (some ⟨found.stop, ruleNode name kind span found.node⟩) := by
  obtain ⟨span, spanned, _⟩ := Span.spanTo_eq_ok ordered
  refine ⟨span, spanned, ?_⟩
  by_cases silent : kind = .silent
  · simp only [rule, ruleNode, if_pos silent]
  · simp only [rule, ruleNode, if_neg silent, Action.span, spanned, Action.ofExcept, pure_bind]

namespace Coupling

variable (coupling : Coupling) (left right : Env)

/-- Scopes that correspond: the same one, or those of a rule with its two kinds. -/
inductive Scopes : Option Scope → Option Scope → Prop
  | same (scope : Scope) : Scopes (some scope) (some scope)
  | rule {name : String} {kind other : RuleKind} :
      coupling.kinds name kind other →
      Scopes (Clause.ruleScope name kind) (Clause.ruleScope name other)

/-- Spans that correspond, or errors in place of both. -/
inductive SpansAlike : Except PositionError Span → Except PositionError Span → Prop
  | ok {span other : Span} : coupling.spans span other → SpansAlike (.ok span) (.ok other)
  | error {error other : PositionError} :
      coupling.faults (.position error) (.position other) →
      SpansAlike (.error error) (.error other)

/-- Expressions that are made in the same way of parts that correspond, once references and lazy
expressions have been followed on either side. -/
inductive Shape : Expr → Expr → Prop
  | terminal {leaf : Terminal} :
      coupling.terminals leaf → Shape (.terminal leaf) (.terminal leaf)
  | seq {first other : Expr} {rest others : List Expr} :
      Forall₂ coupling.exprs (first :: rest) (other :: others) →
      Shape (.seq first rest) (.seq other others)
  | choice {first other : Expr} {rest others : List Expr} :
      Forall₂ coupling.exprs (first :: rest) (other :: others) →
      Shape (.choice first rest) (.choice other others)
  | opt {body other : Expr} : coupling.exprs body other → Shape (.opt body) (.opt other)
  | rep {body other : Expr} {min : Nat} {max : Option Nat} :
      coupling.exprs body other → Shape (.rep body min max) (.rep other min max)
  | positive {body other : Expr} :
      coupling.exprs body other → Shape (.positive body) (.positive other)
  | negative {body other : Expr} :
      coupling.exprs body other → Shape (.negative body) (.negative other)
  | restorable {body other : Expr} :
      coupling.exprs body other → Shape (.restorable body) (.restorable other)
  | push {body other : Expr} : coupling.exprs body other → Shape (.push body) (.push other)
  | rule {tag also : Nat} {name : String} {kind changed : RuleKind} {body other : Expr} :
      coupling.kinds name kind changed → coupling.exprs body other →
      Shape (.rule tag name kind body) (.rule also name changed other)
  | ref {name : String} :
      Option.Rel coupling.exprs (left.rules.lookup name) (right.rules.lookup name) →
      Shape (.ref name) (.ref name)
  | lazy {cell : LazyCell} :
      AnswersAlike coupling.exprs (left.definitions.resolve cell)
        (right.definitions.resolve cell) →
      Shape (.lazy cell) (.lazy cell)
  | ignored : Shape .ignored .ignored
  | pair {body other : Expr} : coupling.exprs body other → Shape (.pair body) (.pair other)
  | abstract : Shape .abstract .abstract
  | leftRef {name : String} {target other : Expr} :
      left.rules.lookup name = some target → Shape target other → Shape (.ref name) other
  | rightRef {name : String} {expr target : Expr} :
      right.rules.lookup name = some target → Shape expr target → Shape expr (.ref name)
  | leftLazy {cell : LazyCell} {target other : Expr} :
      ¬coupling.sameLookups → left.definitions.resolve cell = .ok target →
      Shape target other → Shape (.lazy cell) other
  | rightLazy {cell : LazyCell} {expr target : Expr} :
      ¬coupling.sameLookups → right.definitions.resolve cell = .ok target →
      Shape expr target → Shape expr (.lazy cell)

/-- The coupling respects all that matching does in the two environments. -/
structure Lawful : Prop where
  shape : ∀ {expr other : Expr}, coupling.exprs expr other →
    coupling.Shape left right expr other
  repeatLimit : left.repeatLimit = right.repeatLimit
  skippers : Forall₂ coupling.exprs left.skippers right.skippers
  faults : ∀ cause, coupling.faults cause cause
  same : ∀ {here other there also : Position}, coupling.places here other →
    coupling.places there also → here.same there = other.same also
  spanTo : ∀ {start other stop also : Position}, coupling.places start other →
    coupling.places stop also → coupling.SpansAlike (start.spanTo stop) (other.spanTo also)
  attempt : ∀ {leaf : Terminal} {here other : Position}, coupling.terminals leaf →
    coupling.places here other →
    Coupled coupling coupling.Results (leaf.attempt here) (leaf.attempt other)
  nothing : coupling.nodes none none
  seq : ∀ {span other : Span} {items others : List (Option Node)}, coupling.spans span other →
    Forall₂ coupling.nodes items others →
    coupling.nodes (some (.seq span items)) (some (.seq other others))
  choice : ∀ {span other : Span} {child also : Option Node} (index : Nat),
    coupling.spans span other → coupling.nodes child also →
    coupling.nodes (some (.choice span index child)) (some (.choice other index also))
  opt : ∀ {span other : Span} {child also : Option Node}, coupling.spans span other →
    coupling.nodes child also → coupling.nodes (some (.opt span child)) (some (.opt other also))
  rep : ∀ {span other : Span} {items others : List (Option Node)}, coupling.spans span other →
    Forall₂ coupling.nodes items others →
    coupling.nodes (some (.rep span items)) (some (.rep other others))
  predicate : ∀ {span other : Span} {child also : Option Node} (positive : Bool),
    coupling.spans span other → coupling.nodes child also →
    coupling.nodes (some (.predicate span positive child)) (some (.predicate other positive also))
  push : ∀ {span other : Span} {child also : Option Node}, coupling.spans span other →
    coupling.nodes child also → coupling.nodes (some (.push span child)) (some (.push other also))
  rule : ∀ {name : String} {kind changed : RuleKind} {span other : Span}
    {child also : Option Node}, coupling.kinds name kind changed → coupling.spans span other →
    coupling.nodes child also →
    coupling.nodes (Clause.ruleNode name kind span child) (Clause.ruleNode name changed other also)
  bodyAtomic : ∀ {name : String} {kind changed : RuleKind} (atomic : Bool),
    coupling.kinds name kind changed → kind.bodyAtomic atomic = changed.bodyAtomic atomic
  record : ∀ {held other : Tracker} {here also : Position} (failure : Failure),
    coupling.places here also → coupling.trackers held other →
    coupling.trackers (held.recordFailure failure here.offset)
      (other.recordFailure failure also.offset)
  text : ∀ {body target : Expr} (forced : List LazyCell), coupling.sameLookups →
    coupling.exprs body target →
    body.text left.definitions forced = target.text right.definitions forced
  recordPredicate : ∀ {held other : Tracker} {here also : Position} {label text : String}
    (positive : Bool), (coupling.sameLookups → label = text) → coupling.places here also →
    coupling.trackers held other →
    coupling.trackers (held.recordPredicate positive label here.offset)
      (other.recordPredicate positive text also.offset)
  enter : ∀ {held other : Tracker} {scope? also : Option Scope}, coupling.Scopes scope? also →
    coupling.trackers held other → coupling.trackers (held.enterAny scope?) (other.enterAny also)
  leave : ∀ {held other : Tracker} {scope? also : Option Scope}, coupling.Scopes scope? also →
    coupling.trackers held other → coupling.trackers (held.leaveAny scope?) (other.leaveAny also)

end Coupling

/-! ### Clauses -/

/-- Where rules keep their kinds, the scopes are the same. -/
theorem Coupling.Scopes.eq {coupling : Coupling} {scope? also : Option Scope}
    (scopes : coupling.Scopes scope? also)
    (kept : ∀ {name kind other}, coupling.kinds name kind other → kind = other) :
    scope? = also := by
  cases scopes with
  | same scope => rfl
  | rule kinds => rw [kept kinds]

theorem Coupling.SpansAlike.coupled {coupling : Coupling} {start other stop also : Position}
    (alike : coupling.SpansAlike (start.spanTo stop) (other.spanTo also)) :
    Coupled coupling coupling.spans (Action.span start stop) (Action.span other also) := by
  unfold Action.span
  generalize start.spanTo stop = result at alike
  generalize other.spanTo also = answer at alike
  cases alike with
  | ok spans => exact .pure spans
  | error faults => exact .fail faults

namespace Coupling.Lawful

variable {coupling : Coupling} {left right : Env} (lawful : coupling.Lawful left right)

include lawful

theorem span {start other stop also : Position} (starts : coupling.places start other)
    (stops : coupling.places stop also) :
    Coupled coupling coupling.spans (Action.span start stop) (Action.span other also) :=
  (lawful.spanTo starts stops).coupled

/-- Answers with nodes over spans that correspond. -/
theorem answer {start other stop also : Position} {node next : Span → Option Node}
    (starts : coupling.places start other) (stops : coupling.places stop also)
    (nodes : ∀ {span others}, coupling.spans span others →
      coupling.nodes (node span) (next others)) :
    Coupled coupling coupling.Results
      (Action.span start stop >>= fun span => pure (some ⟨stop, node span⟩))
      (Action.span other also >>= fun span => pure (some ⟨also, next span⟩)) :=
  .bind (lawful.span starts stops) fun _ _ spans => .pure (.some ⟨stops, nodes spans⟩)

omit lawful in
theorem afterGap {here other : Position} {result also : Option Match}
    (places : coupling.places here other) (results : coupling.Results result also) :
    coupling.places (Clause.afterGap here result) (Clause.afterGap other also) := by
  cases results with
  | some found => exact found.stop
  | none => exact places

theorem child {result also : Option Match} (results : coupling.Results result also) :
    coupling.nodes (result.bind Match.node) (also.bind Match.node) := by
  cases results with
  | some found => exact found.node
  | none => exact lawful.nothing

theorem optNode {start other : Position} {result also : Option Match}
    (starts : coupling.places start other) (results : coupling.Results result also) :
    Coupled coupling coupling.Results (Clause.optNode start result)
      (Clause.optNode other also) :=
  lawful.answer starts (afterGap starts results) fun spans =>
    lawful.opt spans (lawful.child results)

/-- Both sides show an expression, unless one of them has no text for it. -/
theorem textOf {body target : Expr} (exprs : coupling.exprs body target) :
    Follows coupling (fun label text => coupling.sameLookups → label = text)
      (Action.textOf left body) fun _ => Action.textOf right target := by
  intro before also states
  have same (must : coupling.sameLookups) : body.text left.definitions before.forced =
      target.text right.definitions also.forced :=
    states.forced must ▸ lawful.text before.forced must exprs
  have always {outcome : Outcome String} (ended : Action.textOf right target also = outcome) :
      Eventually fun _ => Action.textOf right target also = outcome := ⟨0, fun _ _ => ended⟩
  cases shown : body.text left.definitions before.forced with
  | none =>
    rw [Action.textOf_of_none shown]
    by_cases must : coupling.sameLookups
    · have lost := Action.textOf_of_none ((same must).symm.trans shown)
      exact .inr (.inr ⟨_, .inr (.fault (lawful.faults _) states), always lost⟩)
    · exact .inr (.inl ⟨must, before, rfl⟩)
  | some label =>
    rw [Action.textOf_of_some shown]
    cases read : target.text right.definitions also.forced with
    | none =>
      have free (must : coupling.sameLookups) : False := by
        cases shown.symm.trans ((same must).trans read)
      exact .inr (.inr ⟨_, .inl ⟨free, also, rfl⟩, always (Action.textOf_of_none read)⟩)
    | some text =>
      have alike (must : coupling.sameLookups) : label = text :=
        Option.some.inj (shown.symm.trans ((same must).trans read))
      exact .inr (.inr ⟨_, .inr (.done alike states), always (Action.textOf_of_some read)⟩)

theorem failedPredicate {start other : Position} {body target : Expr} (positive : Bool)
    (exprs : coupling.exprs body target) (starts : coupling.places start other) :
    Follows coupling coupling.Results
      (Action.textOf left body >>= fun label =>
        Action.track (·.recordPredicate positive label start.offset) >>= fun _ => pure none)
      fun _ => Action.textOf right target >>= fun label =>
        Action.track (·.recordPredicate positive label other.offset) >>= fun _ => pure none := by
  refine .bind (lawful.textOf exprs) fun label text same => Coupled.follows ?_
  refine .bind (.track fun trackers => ?_) fun _ _ _ => .pure .none
  exact lawful.recordPredicate positive same starts trackers

theorem positiveNode {start other : Position} {body target : Expr} {result also : Option Match}
    (exprs : coupling.exprs body target) (starts : coupling.places start other)
    (results : coupling.Results result also) :
    Follows coupling coupling.Results (Clause.positiveNode left body start result)
      fun _ => Clause.positiveNode right target other also := by
  cases results with
  | some found =>
    exact (lawful.answer starts starts fun spans => lawful.predicate true spans found.node).follows
  | none => exact lawful.failedPredicate true exprs starts

theorem negativeNode {start other : Position} {body target : Expr} {result also : Option Match}
    (exprs : coupling.exprs body target) (starts : coupling.places start other)
    (results : coupling.Results result also) :
    Follows coupling coupling.Results (Clause.negativeNode left body start result)
      fun _ => Clause.negativeNode right target other also := by
  cases results with
  | some _ => exact lawful.failedPredicate false exprs starts
  | none =>
    exact (lawful.answer starts starts fun spans =>
      lawful.predicate false spans lawful.nothing).follows

theorem repClause {start other here there : Position} {items others : Array (Option Node)}
    (min : Nat) (starts : coupling.places start other) (places : coupling.places here there)
    (nodes : Forall₂ coupling.nodes items.toList others.toList) :
    Coupled coupling coupling.Results (Clause.rep min start here items)
      (Clause.rep min other there others) := by
  have size : items.size = others.size := by simpa using nodes.length_eq
  unfold Clause.rep
  rw [size]
  split
  · exact .pure .none
  · exact lawful.answer starts places fun spans => lawful.rep spans nodes

theorem pushClause {start other : Position} {result also : Option Match}
    (starts : coupling.places start other) (results : coupling.Results result also) :
    Coupled coupling coupling.Results (Clause.push start result) (Clause.push other also) := by
  cases results with
  | none => exact .pure .none
  | some found =>
    refine .bind (lawful.span starts found.stop) fun span others spans => ?_
    refine .bind (Coupled.modify fun states => ?_) fun _ _ _ => ?_
    · exact ⟨states.stack.push spans, states.tracker, states.forced⟩
    · exact .pure (.some ⟨found.stop, lawful.push spans found.node⟩)

/-- Whatever the kinds are, the nodes that the rule makes of matches in order correspond. That the
matches are in order is asked for since a silent rule makes no span. -/
theorem ruleClause {start other : Position} {name : String} {kind changed : RuleKind}
    {result also : Option Match} (kinds : coupling.kinds name kind changed)
    (starts : coupling.places start other) (results : coupling.Results result also)
    (ordered : ∀ found, result = some found → start.Precedes found.stop)
    (alsoOrdered : ∀ found, also = some found → other.Precedes found.stop) :
    Coupled coupling coupling.Results (Clause.rule left name kind start result)
      (Clause.rule right name changed other also) := by
  cases results with
  | none => exact .bind (.emit left right _ _) fun _ _ _ => .pure .none
  | @some found match' matches' =>
    obtain ⟨span, spanned, made⟩ := Clause.rule_some left (ordered found rfl)
    obtain ⟨others, also, remade⟩ := Clause.rule_some right (alsoOrdered match' rfl)
    have spans : coupling.spans span others := by
      have alike := lawful.spanTo starts matches'.stop
      rw [spanned, also] at alike
      cases alike with
      | ok spans => exact spans
    rw [made, remade]
    refine .bind (.emit left right _ _) fun _ _ _ => ?_
    exact .pure (.some ⟨matches'.stop, lawful.rule kinds spans matches'.node⟩)

end Coupling.Lawful

/-! ### Loops -/

/-- Skipping has come to places that correspond, and either side matched anything or neither. -/
def Coupling.Reaches (coupling : Coupling) (reached also : Position × Bool) : Prop :=
  coupling.places reached.1 also.1 ∧ reached.2 = also.2

/-- What matches any expression on one side is followed by what matches one of the same shape on the
other. -/
def Eval.Matcher.Follows (coupling : Coupling) (left right : Env) (run : Eval.Matcher)
    (other : Nat → Eval.Matcher) : Prop :=
  ∀ {expr target : Expr} {here there : Position} (atomic : Bool),
    coupling.Shape left right expr target → coupling.places here there →
    Action.Follows coupling coupling.Results (run expr here atomic) fun fuel =>
      other fuel target there atomic

namespace Coupling.Lawful

variable {coupling : Coupling} {left right : Env} (lawful : coupling.Lawful left right)
  {run : Eval.Matcher} {other : Nat → Eval.Matcher}
  (parts : Eval.Matcher.Follows coupling left right run other)

include parts

theorem gapUnless {here there : Position} (forbidden : Bool) (places : coupling.places here there) :
    Follows coupling coupling.places (Eval.gapUnless run forbidden here) fun fuel =>
      Eval.gapUnless (other fuel) forbidden there := by
  cases forbidden with
  | true => exact .pure places
  | false =>
    exact .bind (parts false .ignored places) fun _ _ results => .pure (afterGap places results)

include lawful

theorem items {exprs others : List Expr} {start origin here there : Position}
    {found matched : Array (Option Node)} (atomic : Bool)
    (shapes : Forall₂ coupling.exprs exprs others) (starts : coupling.places start origin)
    (places : coupling.places here there)
    (nodes : Forall₂ coupling.nodes found.toList matched.toList) :
    Follows coupling coupling.Results (Eval.items run atomic start exprs here found) fun fuel =>
      Eval.items (other fuel) atomic origin others there matched := by
  induction shapes generalizing here there found matched with
  | nil =>
    exact (lawful.answer starts places fun spans => lawful.seq spans nodes).follows
  | cons first _ ih =>
    -- Nothing is skipped before the first item, and both sides have as many by now.
    have empty : found.isEmpty = matched.isEmpty := by
      have size : found.size = matched.size := by simpa using nodes.length_eq
      simp only [Array.isEmpty, size]
    simp only [Eval.items, empty]
    refine .bind (gapUnless parts _ places) fun here there places => ?_
    refine .bind (parts atomic (lawful.shape first) places) fun result also results => ?_
    cases results with
    | none => exact .pure .none
    | some item =>
      refine ih item.stop ?_
      simpa using List.rel_append nodes (.cons item.node .nil)

theorem alternatives {exprs others : List Expr} {start origin : Position} (atomic : Bool)
    (index : Nat) (shapes : Forall₂ coupling.exprs exprs others)
    (starts : coupling.places start origin) :
    Follows coupling coupling.Results (Eval.alternatives run atomic start index exprs) fun fuel =>
      Eval.alternatives (other fuel) atomic origin index others := by
  induction shapes generalizing index with
  | nil => exact .pure .none
  | cons first _ ih =>
    refine .bind (parts atomic (lawful.shape first) starts) fun result also results => ?_
    cases results with
    | none => exact ih (index + 1)
    | some found =>
      exact (lawful.answer starts found.stop fun spans =>
        lawful.choice index spans found.node).follows

/-- Each round of the one loop is followed by a round of the other, of whose fuel some may be spent
already. -/
theorem repetition {body target : Expr} {start origin here there : Position}
    {found matched : Array (Option Node)} {min : Nat} {max : Option Nat} (atomic : Bool)
    (rounds spent : Nat) (exprs : coupling.exprs body target)
    (starts : coupling.places start origin) (places : coupling.places here there)
    (nodes : Forall₂ coupling.nodes found.toList matched.toList) :
    Follows coupling coupling.Results
      (Eval.repetition left run body min max atomic start rounds here found) fun fuel =>
        Eval.repetition right (other fuel) target min max atomic origin (fuel - spent) there
          matched := by
  induction rounds generalizing spent here there found matched with
  | zero => exact .exhausted
  | succ rounds ih =>
    have size : found.size = matched.size := by simpa using nodes.length_eq
    have empty : found.isEmpty = matched.isEmpty := by simp only [Array.isEmpty, size]
    refine Action.Follows.round (fun fuel rounds => Eval.repetition right (other fuel)
      target min max atomic origin rounds there matched) ?_
    simp only [Eval.repetition, size, empty]
    split
    · exact (lawful.repClause min starts places nodes).follows
    · refine .bind (gapUnless parts _ places) fun here there places => ?_
      refine .bind (parts atomic (lawful.shape exprs) places) fun result also results => ?_
      cases results with
      | none => exact (lawful.repClause min starts places nodes).follows
      | @some item also items =>
        have more : Forall₂ coupling.nodes (found.push item.node).toList
            (matched.push also.node).toList := by
          simpa using List.rel_append nodes (.cons items.node .nil)
        have pushed : (found.push item.node).size = (matched.push also.node).size := by
          simp only [Array.size_push, size]
        simp only [Clause.beyondLimit, pushed, lawful.repeatLimit]
        -- Both sides go beyond the limit of repetitions here, or neither does.
        split
        · refine (Coupled.bind (.track ?_) fun _ _ _ => .pure .none).follows
          exact lawful.record _ items.stop
        · exact ih (spent + 1) items.stop more

theorem skipOne {skipper target : Expr} {here there : Position} (rounds spent : Nat)
    (progress : Bool) (exprs : coupling.exprs skipper target)
    (places : coupling.places here there) :
    Follows coupling coupling.Reaches (Eval.skipOne run skipper rounds here progress) fun fuel =>
      Eval.skipOne (other fuel) target (fuel - spent) there progress := by
  induction rounds generalizing spent here there progress with
  | zero => exact .exhausted
  | succ rounds ih =>
    refine Action.Follows.round (fun fuel rounds =>
      Eval.skipOne (other fuel) target rounds there progress) ?_
    refine .bind (parts true (lawful.shape exprs) places) fun result also results => ?_
    cases results with
    | none => exact .pure ⟨places, rfl⟩
    | @some found match' matches' =>
      -- The loop ends on both sides if nothing but the empty text was matched.
      simp only [lawful.same matches'.stop places]
      split
      · exact .pure ⟨places, rfl⟩
      · exact ih (spent + 1) true matches'.stop

theorem skipEach {skippers targets : List Expr} {here there : Position} (rounds spent : Nat)
    (progress : Bool) (exprs : Forall₂ coupling.exprs skippers targets)
    (places : coupling.places here there) :
    Follows coupling coupling.Reaches (Eval.skipEach run rounds skippers here progress) fun fuel =>
      Eval.skipEach (other fuel) (fuel - spent) targets there progress := by
  induction exprs generalizing here there progress with
  | nil => exact .pure ⟨places, rfl⟩
  | cons first _ ih =>
    refine .bind (lawful.skipOne parts rounds spent progress first places)
      fun reached also reaches => ?_
    simp only [reaches.2]
    exact ih also.2 reaches.1

theorem skipAll {skippers targets : List Expr} {here there : Position} (rounds spent : Nat)
    (exprs : Forall₂ coupling.exprs skippers targets) (places : coupling.places here there) :
    Follows coupling coupling.places (Eval.skipAll run skippers rounds here) fun fuel =>
      Eval.skipAll (other fuel) targets (fuel - spent) there := by
  induction rounds generalizing spent here there with
  | zero => exact .exhausted
  | succ rounds ih =>
    refine Action.Follows.round (fun fuel rounds =>
      Eval.skipAll (other fuel) targets rounds there) ?_
    have each := lawful.skipEach parts rounds (spent + 1) false exprs places
    refine .bind each fun reached also reaches => ?_
    simp only [reaches.2]
    split
    · exact ih (spent + 1) reaches.1
    · exact .pure reaches.1

theorem pair {body target : Expr} {start origin : Position} (atomic : Bool)
    (exprs : coupling.exprs body target) (starts : coupling.places start origin) :
    Follows coupling coupling.Results (Eval.pair run body start atomic) fun fuel =>
      Eval.pair (other fuel) target origin atomic := by
  refine .bind (parts atomic (lawful.shape exprs) starts) fun result also results => ?_
  cases results with
  | none => exact .pure .none
  | some first =>
    refine .bind (parts atomic (lawful.shape exprs) first.stop) fun result also results => ?_
    cases results with
    | none => exact .pure .none
    | some second =>
      exact (lawful.answer starts second.stop fun spans =>
        lawful.seq spans (.cons first.node (.cons second.node .nil))).follows

omit parts

theorem withinAny {α β : Type} {values : α → β → Prop} {scope? also : Option Scope}
    {body : Action α} {inner : Nat → Action β} (scopes : coupling.Scopes scope? also)
    (follows : Follows coupling values body inner) :
    Follows coupling values (Action.withinAny scope? body) fun fuel =>
      Action.withinAny also (inner fuel) := by
  intro before other states
  have entered : coupling.States { before with tracker := before.tracker.enterAny scope? }
      { other with tracker := other.tracker.enterAny also } :=
    ⟨states.stack, lawful.enter scopes states.tracker, states.forced⟩
  have ended := follows _ _ entered
  simp only [Action.withinAny_apply]
  generalize body { before with tracker := before.tracker.enterAny scope? } = began at ended
  rcases ended with rfl | ⟨free, after, rfl⟩ | ⟨outcome, ⟨free, after, rfl⟩ | ends, followed⟩
  · exact .inl rfl
  · exact .inr (.inl ⟨free, _, rfl⟩)
  · refine .inr (.inr ⟨_, .inl ⟨free, _, rfl⟩, followed.mono fun fuel reached => by rw [reached]⟩)
  · cases ends with
    | done value after =>
      refine .inr (.inr ⟨_, .inr (.done value ?_), followed.mono fun fuel reached => by
        rw [reached]⟩)
      exact ⟨after.stack, lawful.leave scopes after.tracker, after.forced⟩
    | fault cause after =>
      refine .inr (.inr ⟨_, .inr (.fault cause ?_), followed.mono fun fuel reached => by
        rw [reached]⟩)
      exact ⟨after.stack, lawful.leave scopes after.tracker, after.forced⟩

include parts

theorem ignored {start origin : Position} (rounds spent : Nat) (atomic : Bool)
    (starts : coupling.places start origin) :
    Follows coupling coupling.Results (Eval.ignored left run rounds start atomic) fun fuel =>
      Eval.ignored right (other fuel) (fuel - spent) origin atomic := by
  have empty : left.skippers.isEmpty = right.skippers.isEmpty := by
    have skippers := lawful.skippers
    generalize left.skippers = exprs at skippers ⊢
    generalize right.skippers = others at skippers ⊢
    cases skippers <;> rfl
  simp only [Eval.ignored, empty]
  split
  · exact .pure (.some ⟨starts, lawful.nothing⟩)
  · have skipped := lawful.skipAll parts rounds spent lawful.skippers starts
    exact .bind (lawful.withinAny (.same .muted) skipped) fun _ _ stops =>
      .pure (.some ⟨stops, lawful.nothing⟩)

end Coupling.Lawful

/-! ### Evaluation -/

/-- Matches on both sides that are in order are as far as is known of them. -/
theorem Action.Follows.ordered {coupling : Coupling} {values : Option Match → Option Match → Prop}
    {left right : Env} {fuel : Nat} {expr target : Expr} {here there : Position} {atomic : Bool}
    (follows : Follows coupling values (eval left fuel expr here atomic) fun fuel =>
      eval right fuel target there atomic) :
    Follows coupling (fun result also => values result also ∧
        (∀ found, result = some found → here.Precedes found.stop) ∧
        ∀ found, also = some found → there.Precedes found.stop)
      (eval left fuel expr here atomic) fun fuel => eval right fuel target there atomic := by
  intro before other states
  rcases follows before other states with
    endless | excused | ⟨outcome, excused | ends, followed⟩
  · exact .inl endless
  · exact .inr (.inl excused)
  · exact .inr (.inr ⟨outcome, .inl excused, followed⟩)
  refine .inr (.inr ⟨outcome, .inr ?_, followed⟩)
  -- The other side comes to the same outcome with some fuel, which is all that it takes to know how
  -- its match was built.
  obtain ⟨enough, reached⟩ := followed
  have ran := reached enough (Nat.le_refl _)
  generalize began : eval left fuel expr here atomic before = outcome at ends
  cases ends with
  | fault cause after => exact .fault cause after
  | done value after =>
    refine .done ⟨value, ?_, ?_⟩ after
    · rintro found rfl
      exact (Builds.of_eval began found rfl).precedes
    · rintro found rfl
      exact (Builds.of_eval ran found rfl).precedes

section Following

variable {env : Env} {fuel : Nat} {start : Position} {atomic : Bool}

theorem eval_ref {name : String} {target : Expr} (defined : env.rules.lookup name = some target) :
    eval env (fuel + 1) (.ref name) start atomic = eval env fuel target start atomic := by
  simp only [eval, Action.lookupRule, defined, pure_bind]

theorem eval_lazy {cell : LazyCell} {target : Expr} (state : State)
    (resolved : env.definitions.resolve cell = .ok target) :
    eval env (fuel + 1) (.lazy cell) start atomic state =
      eval env fuel target start atomic (state.remember cell) := by
  simp only [eval, Action.force, resolved]
  rfl

end Following

namespace Coupling

variable {coupling : Coupling}

/-- Where the sides need not look up the same, one of them may look up more. -/
theorem States.remember_left {left right : State} (states : coupling.States left right)
    (free : ¬coupling.sameLookups) (cell : LazyCell) :
    coupling.States (left.remember cell) right := by
  unfold State.remember
  split
  · exact states
  · exact ⟨states.stack, states.tracker, fun must => absurd must free⟩

theorem States.remember_right {left right : State} (states : coupling.States left right)
    (free : ¬coupling.sameLookups) (cell : LazyCell) :
    coupling.States left (right.remember cell) := by
  unfold State.remember
  split
  · exact states
  · exact ⟨states.stack, states.tracker, fun must => absurd must free⟩

theorem isSome_eq (result also : Option Match) (results : coupling.Results result also) :
    result.isSome = also.isSome := by
  cases results <;> rfl

end Coupling

namespace Coupling.Lawful

variable {coupling : Coupling} {left right : Env} (lawful : coupling.Lawful left right)

include lawful

theorem lookupRule {name : String}
    (targets : Option.Rel coupling.exprs (left.rules.lookup name) (right.rules.lookup name)) :
    Coupled coupling coupling.exprs (Action.lookupRule left name)
      (Action.lookupRule right name) := by
  unfold Action.lookupRule
  generalize left.rules.lookup name = target? at targets ⊢
  generalize right.rules.lookup name = other? at targets ⊢
  cases targets with
  | some exprs => exact .pure exprs
  | none => exact .fail (lawful.faults _)

theorem force {cell : LazyCell} (targets : AnswersAlike coupling.exprs
      (left.definitions.resolve cell) (right.definitions.resolve cell)) :
    Coupled coupling coupling.exprs (Action.force left cell) (Action.force right cell) := by
  refine .bind (.ofExcept lawful.faults targets) fun target other exprs => ?_
  refine .bind (Coupled.modify fun {before also} states => ?_) fun _ _ _ => .pure exprs
  -- Either side may have looked the expression up before; where it matters, both have or none has.
  by_cases same : coupling.sameLookups
  · have forced := states.forced same
    rw [forced]
    split
    · exact states
    · exact ⟨states.stack, states.tracker, fun _ => rfl⟩
  · split <;> split <;> exact ⟨states.stack, states.tracker, fun must => absurd must same⟩

theorem ruleMatch {fuel : Nat} {name : String} {kind changed : RuleKind} {body target : Expr}
    {here there : Position} (atomic : Bool) (kinds : coupling.kinds name kind changed)
    (places : coupling.places here there)
    (part : Follows coupling coupling.Results
      (eval left fuel body here (kind.bodyAtomic atomic)) fun fuel =>
        eval right fuel target there (kind.bodyAtomic atomic)) :
    Follows coupling coupling.Results
      (Action.withinAny (Clause.ruleScope name kind)
        (eval left fuel body here (kind.bodyAtomic atomic)) >>=
          Clause.rule left name kind here) fun fuel =>
      Action.withinAny (Clause.ruleScope name changed)
        (eval right fuel target there (changed.bodyAtomic atomic)) >>=
          Clause.rule right name changed there := by
  rw [← lawful.bodyAtomic atomic kinds]
  refine .bind (lawful.withinAny (.rule kinds) part.ordered) fun _ _ ⟨results, early, late⟩ => ?_
  exact (lawful.ruleClause kinds places results early late).follows

/-- What matches an expression on one side is followed by what matches an expression of the same
shape on the other. The induction is on the fuel of the one side; where only the other side has
something to follow, it is on the shape. -/
theorem eval_follows (fuel : Nat) :
    Eval.Matcher.Follows coupling left right (eval left fuel) (eval right) := by
  induction fuel with
  | zero => exact fun _ _ _ => .exhausted
  | succ fuel parts =>
    intro expr target here there atomic shape places
    induction shape with
    | terminal allowed =>
      exact .succ (lawful.attempt allowed places).follows fun _ => rfl
    | seq exprs => exact .succ (lawful.items parts atomic exprs places places .nil) fun _ => rfl
    | choice exprs =>
      exact .succ (lawful.alternatives parts atomic 0 exprs places) fun _ => rfl
    | opt exprs =>
      have part := parts atomic (lawful.shape exprs) places
      rw [eval_opt]
      refine .succ (.bind (.transaction lawful.faults isSome_eq part) fun _ _ results => ?_)
        fun _ => eval_opt ..
      exact (lawful.optNode places results).follows
    | rep exprs =>
      exact .succ (lawful.repetition parts atomic fuel 0 exprs places places .nil) fun _ => rfl
    | positive exprs =>
      have part := lawful.withinAny (.same (.lookahead .positive))
        (parts atomic (lawful.shape exprs) places)
      rw [eval_positive]
      refine .succ (.bind (.transaction lawful.faults (fun _ _ _ => rfl) part)
        fun _ _ results => ?_) fun _ => eval_positive ..
      exact lawful.positiveNode exprs places results
    | negative exprs =>
      have part := lawful.withinAny (.same (.lookahead .negative))
        (parts atomic (lawful.shape exprs) places)
      rw [eval_negative]
      refine .succ (.bind (.transaction lawful.faults (fun _ _ _ => rfl) part)
        fun _ _ results => ?_) fun _ => eval_negative ..
      exact lawful.negativeNode exprs places results
    | restorable exprs =>
      have part := parts atomic (lawful.shape exprs) places
      rw [eval_restorable]
      exact .succ (.transaction lawful.faults isSome_eq part) fun _ => eval_restorable ..
    | push exprs =>
      exact .succ (.bind (parts atomic (lawful.shape exprs) places)
        fun _ _ results => (lawful.pushClause places results).follows) fun _ => rfl
    | @rule tag also name kind changed body other kinds exprs =>
      have part := parts (kind.bodyAtomic atomic) (lawful.shape exprs) places
      exact .succ (.bind (Coupled.emit left right _ _).follows fun _ _ _ =>
        lawful.ruleMatch atomic kinds places part) fun _ => rfl
    | ref targets =>
      exact .succ (.bind (lawful.lookupRule targets).follows
        fun _ _ exprs => parts atomic (lawful.shape exprs) places) fun _ => rfl
    | lazy targets =>
      exact .succ (.bind (lawful.force targets).follows
        fun _ _ exprs => parts atomic (lawful.shape exprs) places) fun _ => rfl
    | ignored => exact .succ (lawful.ignored parts fuel 0 atomic places) fun _ => rfl
    | pair exprs => exact .succ (lawful.pair parts atomic exprs places) fun _ => rfl
    | abstract => exact .succ (Coupled.fail (lawful.faults _)).follows fun _ => rfl
    | leftRef defined shape _ =>
      -- A unit of fuel goes into the step to the target, and the target is left to the induction.
      rw [eval_ref defined]
      exact parts atomic shape places
    | rightRef defined _ ih => exact .succ ih fun _ => eval_ref defined
    | @leftLazy cell target other free resolved shape _ =>
      intro before also states
      have forced : coupling.States _ also := states.remember_left free cell
      rw [eval_lazy before resolved]
      exact parts atomic shape places _ also forced
    | @rightLazy cell expr target free resolved _ ih =>
      intro before also states
      -- What the other side has looked up does not have to be the same here.
      rcases ih before _ (states.remember_right free cell) with
        endless | excused | ⟨outcome, ends, followed⟩
      · exact .inl endless
      · exact .inr (.inl excused)
      · refine .inr (.inr ⟨outcome, ends, followed.succ fun fuel reached => ?_⟩)
        exact (eval_lazy also resolved).trans reached

end Coupling.Lawful

end Peg
