import Peg.Proofs.Coupling.InPlace
import Peg.Proofs.Grammar.Parts

/-!
# The kind of a rule

Of the kind of a rule, what it matches depends only on whether the kind makes its body atomic. A
silent rule matches as a normal one, and an atomic rule as a compound one: they differ in the nodes
that they make and in the names under which failures are recorded.

So two runs with kinds exchanged in this way go side by side. Their nodes are compared after those
of rules that are silent in either run have been replaced by their children, and those of rules that
are atomic in either run have lost theirs; of their trackers, only the place of the furthest failure
is compared, as the rules around a failure decide whether it counts as a new one.

## Main result

If rules change their kinds between normal and silent, or between atomic and compound, parses end as
before, but for the shape of the tree and the records of the report.
-/
namespace Peg

open List (Forall₂)

/-! ### Changing kinds -/

/-- Kinds that differ in the shape of the tree and of reports only. -/
inductive RuleKind.Exchangeable : RuleKind → RuleKind → Prop
  | same (kind : RuleKind) : Exchangeable kind kind
  | silence : Exchangeable .normal .silent
  | voice : Exchangeable .silent .normal
  | fill : Exchangeable .atomic .compoundAtomic
  | empty : Exchangeable .compoundAtomic .atomic

theorem RuleKind.Exchangeable.bodyAtomic {kind changed : RuleKind}
    (exchangeable : kind.Exchangeable changed) (atomic : Bool) :
    kind.bodyAtomic atomic = changed.bodyAtomic atomic := by
  cases exchangeable <;> rfl

mutual

/-- The expression with other kinds of rules, by their names. -/
def Expr.withKinds (kinds : String → RuleKind) : Expr → Expr
  | .terminal leaf => .terminal leaf
  | .seq first rest => .seq (first.withKinds kinds) (Expr.allWithKinds kinds rest)
  | .choice first rest => .choice (first.withKinds kinds) (Expr.allWithKinds kinds rest)
  | .opt body => .opt (body.withKinds kinds)
  | .rep body min max => .rep (body.withKinds kinds) min max
  | .positive body => .positive (body.withKinds kinds)
  | .negative body => .negative (body.withKinds kinds)
  | .restorable body => .restorable (body.withKinds kinds)
  | .push body => .push (body.withKinds kinds)
  | .rule tag name _ body => .rule tag name (kinds name) (body.withKinds kinds)
  | .ref name => .ref name
  | .lazy cell => .lazy cell
  | .ignored => .ignored
  | .pair body => .pair (body.withKinds kinds)
  | .abstract => .abstract

def Expr.allWithKinds (kinds : String → RuleKind) : List Expr → List Expr
  | [] => []
  | expr :: rest => expr.withKinds kinds :: Expr.allWithKinds kinds rest

end

/-- The environment with other kinds of rules, by their names. -/
def Env.withKinds (env : Env) (kinds : String → RuleKind) : Env :=
  { env with
    rules := env.rules.map fun (name, expr) => (name, expr.withKinds kinds)
    definitions := env.definitions.map fun (name, target) =>
      (name, target.map (Expr.withKinds kinds))
    whitespace := env.whitespace.map (Expr.withKinds kinds)
    comment := env.comment.map (Expr.withKinds kinds) }

/-- A rule has the kind that belongs to its name. -/
def Expr.HasKind (kinds : String → RuleKind) (expr : Expr) : Prop :=
  ∀ tag name kind body, expr = .rule tag name kind body → kind = kinds name

/-- All rules that an expression and the text to be ignored contain, those inside other expressions
included, have the kinds that belong to their names. Where rules have distinct names, this only says
which kinds they have. -/
structure Env.Named (env : Env) (kinds : String → RuleKind) (expr : Expr) : Prop where
  root : Throughout env (Expr.HasKind kinds) expr
  skippers : ∀ skipper ∈ env.skippers, Throughout env (Expr.HasKind kinds) skipper

/-! ### Trees without what kinds decide -/

mutual

/-- The tree in which the nodes of silent rules are replaced by their children, and those of atomic
rules have lost theirs. -/
def Node.strip (silent atomic : String → Bool) : Node → Option Node
  | .terminal kind span value => some (.terminal kind span value)
  | .seq span items => some (.seq span (Node.stripItems silent atomic items))
  | .choice span index child => some (.choice span index (Node.stripChild silent atomic child))
  | .opt span child => some (.opt span (Node.stripChild silent atomic child))
  | .rep span items => some (.rep span (Node.stripItems silent atomic items))
  | .predicate span positive child =>
    some (.predicate span positive (Node.stripChild silent atomic child))
  | .push span child => some (.push span (Node.stripChild silent atomic child))
  | .rule name span child =>
    if silent name then Node.stripChild silent atomic child
    else some (.rule name span
      (if atomic name then none else Node.stripChild silent atomic child))

def Node.stripChild (silent atomic : String → Bool) : Option Node → Option Node
  | none => none
  | some node => node.strip silent atomic

def Node.stripItems (silent atomic : String → Bool) : List (Option Node) → List (Option Node)
  | [] => []
  | child :: rest =>
    Node.stripChild silent atomic child :: Node.stripItems silent atomic rest

end

/-- The rules that are silent before or after the change of kinds. -/
def RuleKind.silentInEither (kinds changed : String → RuleKind) (name : String) : Bool :=
  kinds name = .silent ∨ changed name = .silent

/-- The rules that are atomic, without content, before or after the change of kinds. -/
def RuleKind.atomicInEither (kinds changed : String → RuleKind) (name : String) : Bool :=
  kinds name = .atomic ∨ changed name = .atomic

/-- The result of a match, stripped of what depends on the kinds before and after a change. -/
def Node.common (kinds changed : String → RuleKind) (node : Option Node) : Option Node :=
  Node.stripChild (RuleKind.silentInEither kinds changed) (RuleKind.atomicInEither kinds changed)
    node

namespace Node

variable {kinds changed : String → RuleKind}

theorem common_items {items others : List (Option Node)}
    (nodes : Forall₂ (fun node other => common kinds changed node = common kinds changed other)
      items others) :
    stripItems (RuleKind.silentInEither kinds changed) (RuleKind.atomicInEither kinds changed)
        items =
      stripItems (RuleKind.silentInEither kinds changed) (RuleKind.atomicInEither kinds changed)
        others := by
  induction nodes with
  | nil => rfl
  | cons first _ ih =>
    simp only [stripItems, ih]
    rw [common, common] at first
    rw [first]

/-- What a rule makes of matches that have much in common has much in common. -/
theorem common_rule {name : String} {span : Span} {child also : Option Node}
    (exchangeable : (kinds name).Exchangeable (changed name))
    (children : common kinds changed child = common kinds changed also) :
    common kinds changed (Clause.ruleNode name (kinds name) span child) =
      common kinds changed (Clause.ruleNode name (changed name) span also) := by
  unfold common at children ⊢
  generalize before : kinds name = kind at exchangeable
  generalize after : changed name = other at exchangeable
  have silent : RuleKind.silentInEither kinds changed name =
      (kind = .silent ∨ other = .silent) := by
    simp only [RuleKind.silentInEither, before, after, decide_eq_true_eq]
  have atomic : RuleKind.atomicInEither kinds changed name =
      (kind = .atomic ∨ other = .atomic) := by
    simp only [RuleKind.atomicInEither, before, after, decide_eq_true_eq]
  cases exchangeable with
  | same kind => cases kind <;> simp [Clause.ruleNode, stripChild, strip, silent, atomic, children]
  | _ => simp [Clause.ruleNode, stripChild, strip, silent, atomic, children]

end Node

/-! ### Trackers without what kinds decide -/

/-- The furthest failure is at the same place, and either both trackers are muted or neither. -/
structure Tracker.SameReach (left right : Tracker) : Prop where
  furthest : left.furthest = right.furthest
  muteDepth : left.muteDepth = right.muteDepth

namespace Tracker.SameReach

variable {left right : Tracker}

theorem refl (tracker : Tracker) : SameReach tracker tracker := ⟨rfl, rfl⟩

/-- How far failures reach does not depend on what they are. -/
theorem record (same : SameReach left right) (failure other : Failure) (offset : Int)
    (kind : Option Lookahead) :
    SameReach (left.recordFailure failure offset kind)
      (right.recordFailure other offset kind) := by
  refine ⟨?_, ?_⟩
  · by_cases silent : 0 < right.muteDepth
    · have alsoSilent : 0 < left.muteDepth := same.muteDepth ▸ silent
      rw [recordFailure_of_muted _ _ _ silent, recordFailure_of_muted _ _ _ alsoSilent]
      exact same.furthest
    · have heard : right.muteDepth = 0 := by omega
      rw [recordFailure_furthest _ _ _ heard,
        recordFailure_furthest _ _ _ (same.muteDepth.trans heard), same.furthest]
  · rw [← (sameScopes_recordFailure left failure offset kind).muteDepth,
      ← (sameScopes_recordFailure right other offset kind).muteDepth]
    exact same.muteDepth

theorem enter (same : SameReach left right) (scope : Scope) :
    SameReach (left.enter scope) (right.enter scope) := by
  obtain ⟨furthest, muteDepth⟩ := same
  cases scope with
  | rule name => exact ⟨furthest, muteDepth⟩
  | lookahead kind =>
    cases kind with
    | positive => exact ⟨furthest, muteDepth⟩
    | negative => exact ⟨furthest, congrArg (· + 1) muteDepth⟩
  | muted => exact ⟨furthest, congrArg (· + 1) muteDepth⟩

theorem leave (same : SameReach left right) (scope : Scope) :
    SameReach (left.leave scope) (right.leave scope) := by
  obtain ⟨furthest, muteDepth⟩ := same
  cases scope with
  | rule name => exact ⟨furthest, muteDepth⟩
  | lookahead kind =>
    cases kind with
    | positive => exact ⟨furthest, muteDepth⟩
    | negative => exact ⟨furthest, congrArg (· - 1) muteDepth⟩
  | muted => exact ⟨furthest, congrArg (· - 1) muteDepth⟩

theorem blur : Tracker.Blur SameReach where
  record failure offset kind same := same.record failure failure offset kind
  enter scope same := same.enter scope
  leave scope same := same.leave scope
  predicate _ _ _ offset same := same.record _ _ offset _

/-- A rule opens a scope or it does not; that only matters to the names around failures. -/
theorem ruleScope (same : SameReach left right) (name : String) (kind changed : RuleKind) :
    SameReach (left.enterAny (Clause.ruleScope name kind))
        (right.enterAny (Clause.ruleScope name changed)) ∧
      SameReach (left.leaveAny (Clause.ruleScope name kind))
        (right.leaveAny (Clause.ruleScope name changed)) := by
  unfold Clause.ruleScope
  split <;> split <;> exact ⟨⟨same.furthest, same.muteDepth⟩, ⟨same.furthest, same.muteDepth⟩⟩

end Tracker.SameReach

/-! ### The coupling -/

/-- The coupling of a run with one in which rules have other kinds. -/
def Coupling.recast (env : Env) (kinds changed : String → RuleKind) : Coupling :=
  .inPlace (fun node other => Node.common kinds changed node = Node.common kinds changed other)
    Tracker.SameReach
    (fun name kind other => kind = kinds name ∧ other = changed name)
    (fun expr other => Throughout env (Expr.HasKind kinds) expr ∧ other = expr.withKinds changed)
    True

section Recast

variable {env : Env} {kinds changed : String → RuleKind}

theorem Expr.forall₂_withKinds {exprs : List Expr}
    (named : ∀ expr ∈ exprs, Throughout env (Expr.HasKind kinds) expr) :
    Forall₂ (Coupling.recast env kinds changed).exprs exprs
      (Expr.allWithKinds changed exprs) := by
  induction exprs with
  | nil => exact .nil
  | cons expr rest ih =>
    obtain ⟨first, others⟩ := List.forall_mem_cons.mp named
    exact .cons ⟨first, rfl⟩ (ih others)

theorem Env.lookup_withKinds (name : String) :
    (env.withKinds changed).rules.lookup name =
      (env.rules.lookup name).map (Expr.withKinds changed) := lookup_map _ name _

theorem Env.resolve_withKinds (cell : LazyCell) :
    (env.withKinds changed).definitions.resolve cell =
      (env.definitions.resolve cell).map (Expr.withKinds changed) := by
  have found : (env.withKinds changed).definitions.lookup cell.definition =
      (env.definitions.lookup cell.definition).map (Except.map (Expr.withKinds changed)) :=
    lookup_map _ cell.definition _
  unfold Definitions.resolve
  rw [found]
  cases env.definitions.lookup cell.definition <;> rfl

theorem Env.skippers_withKinds :
    (env.withKinds changed).skippers = Expr.allWithKinds changed env.skippers := by
  obtain ⟨_, _, _, whitespace, comment⟩ := env
  cases whitespace <;> cases comment <;> rfl

/-! Texts show rules by their names, and so they do not tell their kinds. -/

theorem Expr.asOperand_withKinds (expr : Expr) (text : String) :
    (expr.withKinds changed).asOperand text = expr.asOperand text := by
  cases expr <;> rfl

mutual

theorem Expr.textWith_withKinds (lazyText : LazyCell → Option String) :
    ∀ expr : Expr, (expr.withKinds changed).textWith lazyText = expr.textWith lazyText
  | .seq first rest | .choice first rest => by
    simp only [withKinds, textWith, asOperand_withKinds, textWith_withKinds lazyText first,
      operandsWith_withKinds lazyText rest]
  | .opt body | .rep body _ _ | .positive body | .negative body => by
    simp only [withKinds, textWith, asOperand_withKinds, textWith_withKinds lazyText body]
  | .restorable body | .push body => by
    simp only [withKinds, textWith, textWith_withKinds lazyText body]
  | .terminal _ | .rule .. | .ref _ | .lazy _ | .ignored | .pair _ | .abstract => rfl

theorem Expr.operandsWith_withKinds (lazyText : LazyCell → Option String) :
    ∀ exprs : List Expr,
      operandsWith lazyText (allWithKinds changed exprs) = operandsWith lazyText exprs
  | [] => rfl
  | expr :: rest => by
    simp only [allWithKinds, operandsWith, asOperand_withKinds, textWith_withKinds lazyText expr,
      operandsWith_withKinds lazyText rest]

end

theorem Env.shown?_withKinds (forced : List LazyCell) (cell : LazyCell) :
    (env.withKinds changed).definitions.shown? forced cell =
      (env.definitions.shown? forced cell).map (Expr.withKinds changed) := by
  unfold Definitions.shown?
  rw [resolve_withKinds]
  split
  · cases env.definitions.resolve cell <;> rfl
  · rfl

theorem Env.lazyText_withKinds (forced : List LazyCell) (depth : Nat) :
    (env.withKinds changed).definitions.lazyText forced depth =
      env.definitions.lazyText forced depth := by
  induction depth with
  | zero =>
    funext cell
    rw [Definitions.lazyText, Definitions.lazyText, shown?_withKinds]
    cases env.definitions.shown? forced cell <;> rfl
  | succ depth ih =>
    funext cell
    rw [Definitions.lazyText, Definitions.lazyText, shown?_withKinds, ih]
    cases env.definitions.shown? forced cell with
    | none => rfl
    | some target => exact target.textWith_withKinds _

theorem Env.text_withKinds (forced : List LazyCell) (expr : Expr) :
    (expr.withKinds changed).text (env.withKinds changed).definitions forced =
      expr.text env.definitions forced := by
  rw [Expr.text, Expr.text, lazyText_withKinds]
  exact expr.textWith_withKinds _

/-- An expression is made as the one with other kinds, of parts that are so again. -/
theorem Expr.withKinds_shape {expr : Expr} (named : Throughout env (Expr.HasKind kinds) expr) :
    (Coupling.recast env kinds changed).Shape env (env.withKinds changed) expr
      (expr.withKinds changed) := by
  cases expr with
  | terminal leaf => exact .terminal trivial
  | seq first rest =>
    exact .seq (Expr.forall₂_withKinds fun part among => named.part (.seq among))
  | choice first rest =>
    exact .choice (Expr.forall₂_withKinds fun part among => named.part (.choice among))
  | opt body => exact .opt ⟨named.part .opt, rfl⟩
  | rep body min max => exact .rep ⟨named.part .rep, rfl⟩
  | positive body => exact .positive ⟨named.part .positive, rfl⟩
  | negative body => exact .negative ⟨named.part .negative, rfl⟩
  | restorable body => exact .restorable ⟨named.part .restorable, rfl⟩
  | push body => exact .push ⟨named.part .push, rfl⟩
  | rule tag name kind body =>
    exact .rule ⟨named.self tag name kind body rfl, rfl⟩ ⟨named.part .rule, rfl⟩
  | ref name =>
    refine .ref ?_
    rw [Env.lookup_withKinds]
    cases defined : env.rules.lookup name with
    | none => exact .none
    | some target => exact .some ⟨named.part (.ref defined), rfl⟩
  | lazy cell =>
    refine .lazy ?_
    rw [Env.resolve_withKinds]
    cases resolved : env.definitions.resolve cell with
    | error error => exact .error error
    | ok target => exact .ok ⟨named.part (.lazy resolved), rfl⟩
  | ignored => exact .ignored
  | pair body => exact .pair ⟨named.part .pair, rfl⟩
  | abstract => exact .abstract

theorem Coupling.recast_lawful {expr : Expr} (named : env.Named kinds expr)
    (exchangeable : ∀ name, (kinds name).Exchangeable (changed name)) :
    (Coupling.recast env kinds changed).Lawful env (env.withKinds changed) where
  shape := by
    rintro expr _ ⟨named, rfl⟩
    exact Expr.withKinds_shape named
  repeatLimit := rfl
  skippers := Env.skippers_withKinds ▸ Expr.forall₂_withKinds named.skippers
  faults _ := rfl
  same := by
    rintro here _ there _ rfl rfl
    rfl
  spanTo := inPlace_spanTo
  attempt _ places := by
    have refl : ∀ node, Node.common kinds changed node = Node.common kinds changed node :=
      fun _ => rfl
    exact inPlace_attempt Tracker.SameReach.blur refl _ places
  nothing := rfl
  seq := by
    rintro span _ items others rfl nodes
    exact congrArg (fun items => some (Node.seq span items)) (Node.common_items nodes)
  choice := by
    rintro span _ child also index rfl nodes
    exact congrArg (fun child => some (Node.choice span index child)) nodes
  opt := by
    rintro span _ child also rfl nodes
    exact congrArg (fun child => some (Node.opt span child)) nodes
  rep := by
    rintro span _ items others rfl nodes
    exact congrArg (fun items => some (Node.rep span items)) (Node.common_items nodes)
  predicate := by
    rintro span _ child also positive rfl nodes
    exact congrArg (fun child => some (Node.predicate span positive child)) nodes
  push := by
    rintro span _ child also rfl nodes
    exact congrArg (fun child => some (Node.push span child)) nodes
  rule := by
    rintro name _ _ span _ child also ⟨rfl, rfl⟩ rfl nodes
    exact Node.common_rule (exchangeable name) nodes
  bodyAtomic := by
    rintro name _ _ atomic ⟨rfl, rfl⟩
    exact (exchangeable name).bodyAtomic atomic
  record := by
    rintro held other here _ failure rfl same
    exact same.record _ _ _ _
  text := by
    rintro body _ forced - ⟨_, rfl⟩
    exact (Env.text_withKinds forced body).symm
  recordPredicate := by
    rintro held other here _ label text positive - rfl same
    exact same.record _ _ _ _
  enter scopes same := by
    cases scopes with
    | same scope => exact same.enter scope
    | rule kinds => exact (same.ruleScope _ _ _).1
  leave scopes same := by
    cases scopes with
    | same scope => exact same.leave scope
    | rule kinds => exact (same.ruleScope _ _ _).2

end Recast

/-! ### Parses -/

/-- Two parses come to the same end but for what kinds decide: to matches that end in the same place
and whose trees become equal when they are stripped, or to reports of the same place, or to the same
fault. The stack and the place of the furthest failure are the same in any case. -/
inductive Parsed.SameButKinds (kinds changed : String → RuleKind) :
    Outcome Parsed → Outcome Parsed → Prop
  | ok {found matched : Match} {after also : State} :
      found.stop = matched.stop →
      Node.common kinds changed found.node = Node.common kinds changed matched.node →
      after.stack = also.stack → after.tracker.furthest = also.tracker.furthest →
      SameButKinds kinds changed (.done (.ok found) after) (.done (.ok matched) also)
  | error {report other : Report} {after also : State} :
      report.offset = other.offset → after.stack = also.stack →
      after.tracker.furthest = also.tracker.furthest →
      SameButKinds kinds changed (.done (.error report) after) (.done (.error other) also)
  | fault (cause : Fault) {after also : State} :
      after.stack = also.stack → after.tracker.furthest = also.tracker.furthest →
      SameButKinds kinds changed (.fault cause after) (.fault cause also)

/-- Ends that correspond are the same but for what kinds decide. -/
theorem Coupling.sameButKinds {env left right : Env} {kinds changed : String → RuleKind}
    {first second : Outcome Parsed}
    (ends : (Coupling.recast env kinds changed).Ends
      ((Coupling.recast env kinds changed).Parses left right) first second) :
    Parsed.SameButKinds kinds changed first second := by
  cases ends with
  | done parsed states =>
    have stack := states.stack.eq
    have furthest := states.tracker.furthest
    cases parsed with
    | ok same => exact .ok same.stop same.node stack furthest
    | error trackers => exact .error (congrArg (max · 0) trackers.furthest) stack furthest
  | fault cause states =>
    cases cause
    exact .fault _ states.stack.eq states.tracker.furthest

/-- The kind of a rule decides on the shape of the tree and of the report only: if the rules of a
grammar have kinds that belong to their names, and some change their kinds between normal and
silent, or between atomic and compound, then a parse, of the whole text or of a prefix, comes to an
end as before, and to the same one but for the nodes of rules that are silent, and the content of
rules that are atomic, before or after the change, and for what is recorded at the place of the
furthest failure. -/
theorem kinds_decide_on_shape_only {env : Env} {kinds changed : String → RuleKind} {expr : Expr}
    (named : env.Named kinds expr)
    (exchangeable : ∀ name, (kinds name).Exchangeable (changed name)) (before : State) :
    EndTogether (Parsed.SameButKinds kinds changed) (parse env · expr before)
        (parse (env.withKinds changed) · (expr.withKinds changed) before) ∧
      EndTogether (Parsed.SameButKinds kinds changed) (parsePartial env · expr before)
        (parsePartial (env.withKinds changed) · (expr.withKinds changed) before) := by
  have states : (Coupling.recast env kinds changed).States before before :=
    Coupling.inPlace_states rfl (.refl before.tracker) fun _ => rfl
  obtain ⟨whole, part⟩ := (Coupling.recast_lawful named exchangeable).parses_together
    ⟨named.root, rfl⟩ rfl trivial states trivial
  exact ⟨whole.mono fun _ _ => Coupling.sameButKinds, part.mono fun _ _ => Coupling.sameButKinds⟩

/-- Words between spaces: a silent rule for the list and an atomic one for each word. -/
def wordList : Expr :=
  .rule 0 "list" .silent (.rep (.rule 1 "word" .atomic (.rep (.charRange 'a' 'z') 1 none)) 1 none)

/-- The text of two words, with a rule for spaces that are ignored. -/
def twoWords : Env where
  input := ⟨0, #['a', ' ', 'b']⟩
  whitespace := some (.rule 2 "space" .silent (.literal " "))

def wordKinds (name : String) : RuleKind := if name = "word" then .atomic else .silent

/-- The kinds after all rules have changed theirs. -/
def shownKinds (name : String) : RuleKind := if name = "word" then .compoundAtomic else .normal

theorem twoWords_named : twoWords.Named wordKinds wordList := by
  have named : ∀ {tag name kind body}, kind = wordKinds name →
      Expr.HasKind wordKinds (.rule tag name kind body) := by
    rintro _ _ _ _ kind _ _ _ _ ⟨⟩
    exact kind
  constructor
  · refine .of_parts (named (by decide)) fun part uses => ?_
    cases uses with
    | rule =>
      refine .of_parts nofun fun part uses => ?_
      cases uses with
      | rep =>
        refine .of_parts (named (by decide)) fun part uses => ?_
        cases uses with
        | rule =>
          refine .of_parts nofun fun part uses => ?_
          cases uses with
          | rep => exact .terminal nofun
  · intro skipper among
    rw [List.mem_singleton.mp among]
    refine .of_parts (named (by decide)) fun part uses => ?_
    cases uses with
    | rule => exact .terminal nofun

/-- Two words are found with and without nodes for the list and for the letters; without them the
trees are the same. -/
theorem two_words_found :
    Parsed.SameButKinds wordKinds shownKinds (parse twoWords 60 wordList {})
        (parse (twoWords.withKinds shownKinds) 60 (wordList.withKinds shownKinds) {}) ∧
      ∃ found after, parse twoWords 60 wordList {} = .done (.ok found) after ∧
        found.stop.offset = 3 := by
  have exchangeable : ∀ name, (wordKinds name).Exchangeable (shownKinds name) := by
    intro name
    unfold wordKinds shownKinds
    split
    · exact .fill
    · exact .voice
  have alike := kinds_decide_on_shape_only twoWords_named exchangeable {}
  exact ⟨alike.1.ends 60 60 nofun nofun, _, _, rfl, rfl⟩

end Peg
