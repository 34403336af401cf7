import Peg.Proofs.Coupling.Parses
import Peg.Proofs.Grammar.Parts
import Peg.Proofs.Text.Prepended
import Peg.Proofs.Tree.Validity

/-!
# Matching never looks back

Unless it is asked whether the text has just begun, an expression is matched by what comes after the
place where it is tried. If more text is put in front, the same is matched from there on. Only where
it stands is further on: the end of the match, the spans of the nodes and those on the stack, and
the place of the furthest failure. The failures themselves are recorded alike.

The two runs are coupled move by move, and what corresponds is given by a function in each case: the
same place, span or node where the text comes in front. For the terminals of the stack it matters
that the spans on it have the same texts; they lie in the part of the text that both runs see.

## Main result

Matching at the end of a text that is put in front comes to the same end as matching at the start,
moved by the length of that text.
-/
namespace Peg

open List (Forall₂)
open Peg.Action (Coupled)

/-! ### What is moved -/

/-- The same span where some text comes in front. -/
def Span.prepend (span : Span) (key : Nat) (front : List Char) : Span :=
  ⟨span.source.prepend key front, span.start + front.length, span.stop + front.length, by
    have ordered := span.start_le_stop
    omega⟩

mutual

/-- The node with all its spans changed. -/
def Node.mapSpans (f : Span → Span) : Node → Node
  | .terminal kind span value => .terminal kind (f span) value
  | .seq span items => .seq (f span) (Node.mapItems f items)
  | .choice span index child => .choice (f span) index (Node.mapChild f child)
  | .opt span child => .opt (f span) (Node.mapChild f child)
  | .rep span items => .rep (f span) (Node.mapItems f items)
  | .predicate span positive child => .predicate (f span) positive (Node.mapChild f child)
  | .push span child => .push (f span) (Node.mapChild f child)
  | .rule name span child => .rule name (f span) (Node.mapChild f child)

def Node.mapChild (f : Span → Span) : Option Node → Option Node
  | none => none
  | some node => some (node.mapSpans f)

def Node.mapItems (f : Span → Span) : List (Option Node) → List (Option Node)
  | [] => []
  | child :: rest => Node.mapChild f child :: Node.mapItems f rest

end

/-- The same match where some text comes in front. -/
def Match.prepend (found : Match) (key : Nat) (front : List Char) : Match :=
  ⟨found.stop.prepend key front, Node.mapChild (·.prepend key front) found.node⟩

/-- The same failures are held, and the same scopes are open. If there are failures, their place is
further on by a distance. -/
structure Tracker.Moved (distance : Nat) (left right : Tracker) : Prop where
  scopes : left.SameScopes right
  records : left.records = right.records
  furthest : left.furthest = -1 ∧ right.furthest = -1 ∨
    0 ≤ right.furthest ∧ left.furthest = distance + right.furthest

/-- A span of a text, and the same one where some text comes in front. -/
structure Span.Prepended (part : Input) (key : Nat) (front : List Char) (left right : Span) :
    Prop where
  eq : left = right.prepend key front
  source : right.source = part
  start_nonneg : 0 ≤ right.start

theorem Span.Prepended.text_eq {part : Input} {key : Nat} {front : List Char} {left right : Span}
    (moved : Span.Prepended part key front left right) : left.text = right.text := by
  have ordered := right.start_le_stop
  have start := moved.start_nonneg
  rw [moved.eq]
  exact Input.slice_prepend _ key front start (by omega)

namespace Tracker.Moved

variable {distance : Nat} {left right : Tracker}

/-- The same failure is recorded on both sides, further on by the distance. -/
theorem record (moved : Moved distance left right) (failure : Failure) (offset : Nat)
    (kind : Option Lookahead) :
    Moved distance (left.recordFailure failure (distance + offset : Nat) kind)
      (right.recordFailure failure offset kind) := by
  have scopes := (sameScopes_recordFailure left failure (distance + offset : Nat) kind).symm.trans
    (moved.scopes.trans (sameScopes_recordFailure right failure offset kind))
  have recorded : left.recordOf failure kind = right.recordOf failure kind := by
    simp only [recordOf, Tracker.kind, moved.scopes.rules, moved.scopes.kinds]
  have muted := moved.scopes.muteDepth
  have records := moved.records
  by_cases silent : 0 < right.muteDepth
  · rw [recordFailure_of_muted _ _ _ silent, recordFailure_of_muted _ _ _ (by omega)]
    exact moved
  -- What the offset has to do with the furthest one is the same on both sides.
  have furthest := moved.furthest
  have early : (left.recordFailure failure (distance + offset : Nat) kind).furthest = _ :=
    recordFailure_furthest left failure kind (by omega) _
  have late : (right.recordFailure failure offset kind).furthest = _ :=
    recordFailure_furthest right failure kind (by omega) _
  refine ⟨scopes, ?_, by rw [early, late]; omega⟩
  rcases lt_trichotomy (offset : Int) right.furthest with near | level | beyond
  · rw [recordFailure_of_near _ _ _ near, recordFailure_of_near _ _ _ (by omega)]
    exact records
  · have alsoLevel : ((distance + offset : Nat) : Int) = left.furthest := by omega
    rw [level, alsoLevel, recordFailure_of_level right _ _ (by omega),
      recordFailure_of_level left _ _ (by omega), recorded, records]
  · rw [recordFailure_of_beyond right _ _ (by omega) beyond,
      recordFailure_of_beyond left _ _ (by omega) (by omega), recorded]

theorem enter (moved : Moved distance left right) (scope : Scope) :
    Moved distance (left.enter scope) (right.enter scope) := by
  have early := sameFailures_enter left scope
  have late := sameFailures_enter right scope
  refine ⟨moved.scopes.enter scope, ?_, ?_⟩
  · rw [← early.records, ← late.records, moved.records]
  · rw [← early.furthest, ← late.furthest]
    exact moved.furthest

theorem leave (moved : Moved distance left right) (scope : Scope) :
    Moved distance (left.leave scope) (right.leave scope) := by
  have early := sameFailures_leave left scope
  have late := sameFailures_leave right scope
  refine ⟨moved.scopes.leave scope, ?_, ?_⟩
  · rw [← early.records, ← late.records, moved.records]
  · rw [← early.furthest, ← late.furthest]
    exact moved.furthest

end Tracker.Moved

/-! ### The coupling -/

/-- Faults that are the same, unless they are about a position. -/
def Fault.Alike (left right : Fault) : Prop :=
  left = right ∨ (∃ error, left = .position error) ∧ ∃ error, right = .position error

/-- The expression is not the one that asks for the start of the input. -/
def Expr.NotStart (expr : Expr) : Prop := expr ≠ .terminal .startOfInput

/-- The coupling of a run with one on the part of its text that comes after some other text. -/
def Coupling.translated (env : Env) (key : Nat) (front : List Char) : Coupling where
  places here there := here = there.prepend key front ∧ there.input = env.input
  spans := Span.Prepended env.input key front
  nodes node other := node = Node.mapChild (·.prepend key front) other
  trackers := Tracker.Moved front.length
  faults := Fault.Alike
  kinds _ := Eq
  terminals leaf := leaf ≠ .startOfInput
  exprs expr other := expr = other ∧ Throughout env Expr.NotStart other
  sameLookups := True

namespace Coupling

variable {env : Env} {key : Nat} {front : List Char}

theorem translated_spanTo {start other stop also : Position}
    (starts : (translated env key front).places start other)
    (stops : (translated env key front).places stop also) :
    (translated env key front).SpansAlike (start.spanTo stop) (other.spanTo also) := by
  obtain ⟨rfl, input⟩ := starts
  obtain ⟨rfl, same⟩ := stops
  have inputs : other.input.id = also.input.id := by rw [input, same]
  have ids : (other.prepend key front).input.id = (also.prepend key front).input.id := rfl
  unfold Position.spanTo
  rw [if_pos ids, if_pos inputs]
  unfold Span.between
  have bounds : ((other.prepend key front).offset : Int) ≤ (also.prepend key front).offset ↔
      (other.offset : Int) ≤ also.offset := by
    simp only [Position.prepend_offset]
    omega
  by_cases ordered : (other.offset : Int) ≤ also.offset
  · rw [dif_pos ordered, dif_pos (bounds.mpr ordered)]
    refine .ok ⟨?_, input, Int.natCast_nonneg _⟩
    simp only [Span.prepend, Position.prepend_input, Position.prepend_offset, Int.natCast_add,
      Int.add_comm]
  · rw [dif_neg ordered, dif_neg (mt bounds.mp ordered)]
    exact .error (.inr ⟨⟨_, rfl⟩, _, rfl⟩)

/-- What is answered about a place in the text is answered in the same way further on. -/
theorem rel_of_eq_map {α β : Type} {values : α → β → Prop} {left : Option α} {right : Option β}
    {f : β → α} (same : left = right.map f) (related : ∀ value, right = some value →
      values (f value) value) : Option.Rel values left right := by
  cases right with
  | none => exact same ▸ .none
  | some value => exact same ▸ .some (related value rfl)

section Terminals

variable {here there : Position} (places : (translated env key front).places here there)

include places

theorem translated_offset : here.offset = front.length + there.offset := by
  rw [places.1]
  rfl

theorem translated_span {stop also : Position}
    (stops : (translated env key front).places stop also) :
    Coupled (translated env key front) (translated env key front).spans (Action.span here stop)
      (Action.span there also) := (translated_spanTo places stops).coupled

theorem translated_found (kind : TerminalKind) {stop also : Position} (value : String)
    (stops : (translated env key front).places stop also) :
    Coupled (translated env key front) (translated env key front).Results
      (Terminal.found kind here stop value) (Terminal.found kind there also value) :=
  .bind (translated_span places stops) fun _ _ spans => .pure (.some ⟨stops, by
    rw [spans.eq]
    rfl⟩)

theorem translated_foundText (kind : TerminalKind) {stop also : Position}
    (stops : (translated env key front).places stop also) :
    Coupled (translated env key front) (translated env key front).Results
      (Terminal.foundText kind here stop) (Terminal.foundText kind there also) :=
  .bind (translated_span places stops) fun _ _ spans => .pure (.some ⟨stops, by
    rw [spans.text_eq, spans.eq]
    rfl⟩)

omit places in
theorem translated_record (failure : Failure) (offset : Nat) :
    Coupled (translated env key front) Eq
      (Action.track (·.recordFailure failure (front.length + offset : Nat)))
      (Action.track (·.recordFailure failure offset)) :=
  .track fun moved => moved.record failure offset none

omit places in
theorem translated_missed (failure : Failure) (offset : Nat) :
    Coupled (translated env key front) (translated env key front).Results
      (Terminal.missed failure (front.length + offset)) (Terminal.missed failure offset) :=
  .bind (translated_record failure offset) fun _ _ _ => .pure .none

theorem translated_matchLiteral (text : String) :
    Option.Rel (translated env key front).places (here.matchLiteral text)
      (there.matchLiteral text) := by
  obtain ⟨rfl, input⟩ := places
  exact rel_of_eq_map (there.matchLiteral_prepend key front text) fun stop found =>
    ⟨rfl, (Position.matchLiteral_advances found).input_eq.trans input⟩

theorem translated_mismatch (text : String) (ignoreCase : Bool) :
    here.mismatchOffset text ignoreCase =
      front.length + there.mismatchOffset text ignoreCase := by
  rw [places.1]
  exact there.mismatchOffset_prepend key front text ignoreCase

theorem translated_matchText (text : String) :
    Coupled (translated env key front) (Option.Rel (translated env key front).places)
      (Terminal.matchText here text) (Terminal.matchText there text) := by
  have matched := translated_matchLiteral places text
  unfold Terminal.matchText
  rw [translated_mismatch places]
  generalize here.matchLiteral text = stop? at matched
  generalize there.matchLiteral text = also? at matched
  cases matched with
  | some stops => exact .pure (.some stops)
  | none => exact .bind (translated_record _ _) fun _ _ _ => .pure .none

theorem translated_matchChar (accept : Char → Bool) :
    Option.Rel (fun found also => (translated env key front).places found.1 also.1 ∧
      found.2 = also.2) (here.matchChar accept) (there.matchChar accept) := by
  obtain ⟨rfl, input⟩ := places
  exact rel_of_eq_map (there.matchChar_prepend key front accept) fun _ found =>
    ⟨⟨rfl, (Position.matchChar_advances found).input_eq.trans input⟩, rfl⟩

theorem translated_matchIgnoringCase (text : String) :
    Option.Rel (fun found also => (translated env key front).places found.1 also.1 ∧
      found.2 = also.2) (here.matchIgnoringCase text) (there.matchIgnoringCase text) := by
  obtain ⟨rfl, input⟩ := places
  exact rel_of_eq_map (there.matchIgnoringCase_prepend key front text) fun _ found =>
    ⟨⟨rfl, (Position.matchIgnoringCase_advances found).input_eq.trans input⟩, rfl⟩

theorem translated_skipUntil (texts : List String) :
    Option.Rel (translated env key front).places (here.skipUntil texts)
      (there.skipUntil texts) := by
  obtain ⟨rfl, input⟩ := places
  exact rel_of_eq_map (there.skipUntil_prepend key front texts) fun _ found =>
    ⟨rfl, (Position.skipUntil_precedes found).input_eq.trans input⟩

/-- A terminal that takes one character. -/
theorem translated_character (accept : Char → Bool) (kind : TerminalKind) (failure : Failure) :
    Coupled (translated env key front) (translated env key front).Results
      (match here.matchChar accept with
        | some (stop, c) => Terminal.found kind here stop c.toString
        | none => Terminal.missed failure here.offset)
      (match there.matchChar accept with
        | some (stop, c) => Terminal.found kind there stop c.toString
        | none => Terminal.missed failure there.offset) := by
  have matched := translated_matchChar places accept
  have offset := translated_offset places
  rw [offset]
  generalize here.matchChar accept = found? at matched
  generalize there.matchChar accept = also? at matched
  cases matched with
  | @some found also same =>
    obtain ⟨stop, c⟩ := found
    obtain ⟨_, _⟩ := also
    cases same.2
    exact translated_found places _ _ same.1
  | none => exact translated_missed _ _

theorem translated_newline (endings : List (String × String)) :
    Coupled (translated env key front) (translated env key front).Results
      (Terminal.matchLineEnding here endings) (Terminal.matchLineEnding there endings) := by
  have offset := translated_offset places
  induction endings with
  | nil =>
    unfold Terminal.matchLineEnding
    rw [offset]
    exact translated_missed _ _
  | cons ending rest ih =>
    obtain ⟨text, name⟩ := ending
    have matched := translated_matchLiteral places text
    unfold Terminal.matchLineEnding
    generalize here.matchLiteral text = stop? at matched
    generalize there.matchLiteral text = also? at matched
    cases matched with
    | some stops => exact translated_found places _ _ stops
    | none => exact ih

omit places in
theorem translated_missAll (offset : Nat) (texts : List String) :
    Coupled (translated env key front) (translated env key front).Results
      (Terminal.missAll (front.length + offset) texts) (Terminal.missAll offset texts) := by
  induction texts with
  | nil => exact .pure .none
  | cons text rest ih => exact .bind (translated_record _ _) fun _ _ _ => ih

theorem translated_matchTop (kind : TerminalKind) {consume : Stack Span → Stack Span}
    (kept : ∀ {left right : Stack Span}, left.Paired (translated env key front).spans right →
      (consume left).Paired (translated env key front).spans (consume right)) :
    Coupled (translated env key front) (translated env key front).Results
      (Terminal.matchTop kind consume here) (Terminal.matchTop kind consume there) := by
  have offset := translated_offset places
  rw [Terminal.matchTop_eq, Terminal.matchTop_eq, offset]
  refine .bind (.gets fun states => states.stack.peek?) fun top also tops => ?_
  cases tops with
  | none => exact .bind (translated_record .emptyStack _) fun _ _ _ => .pure .none
  | some spans =>
    simp only [spans.text_eq]
    refine .bind (translated_matchText places _) fun stop also stops => ?_
    cases stops with
    | none => exact .pure .none
    | some stops =>
      exact .bind (.changeItems kept) fun _ _ _ => translated_found places _ _ stops

theorem translated_matchSlice (kind : TerminalKind) {consume : Stack Span → Stack Span}
    (kept : ∀ {left right : Stack Span}, left.Paired (translated env key front).spans right →
      (consume left).Paired (translated env key front).spans (consume right))
    (start : Int) (stop : Option Int) :
    Coupled (translated env key front) (translated env key front).Results
      (Terminal.matchSlice kind consume start stop here)
      (Terminal.matchSlice kind consume start stop there) := by
  have offset := translated_offset places
  rw [Terminal.matchSlice_eq, Terminal.matchSlice_eq, offset]
  refine .bind (.gets fun states => states.stack.slice? start stop) fun spans also slices => ?_
  cases slices with
  | none =>
    exact .bind (translated_record (.sliceOutOfBounds start stop) _) fun _ _ _ => .pure .none
  | @some spans also slices =>
    -- The spans are further on, but what they hold is the same, and only that is matched.
    have texts : spans.map Span.text = also.map Span.text := by
      induction slices with
      | nil => rfl
      | cons first _ ih => rw [List.map_cons, List.map_cons, first.text_eq, ih]
    simp only [Terminal.matchSpans, texts]
    refine .bind (translated_matchText places _) fun stop also stops => ?_
    cases stops with
    | none => exact .pure .none
    | some stops =>
      exact .bind (.changeItems kept) fun _ _ _ => translated_foundText places _ stops

theorem translated_attempt {leaf : Terminal} (allowed : leaf ≠ .startOfInput) :
    Coupled (translated env key front) (translated env key front).Results (leaf.attempt here)
      (leaf.attempt there) := by
  have offset := translated_offset places
  cases leaf with
  | literal text =>
    have matched := translated_matchLiteral places text
    simp only [Terminal.attempt, translated_mismatch places]
    generalize here.matchLiteral text = stop? at matched
    generalize there.matchLiteral text = also? at matched
    cases matched with
    | some stops => exact translated_found places _ _ stops
    | none => exact translated_missed _ _
  | insensitive text =>
    have matched := translated_matchIgnoringCase places text
    simp only [Terminal.attempt, translated_mismatch places]
    generalize here.matchIgnoringCase text = found? at matched
    generalize there.matchIgnoringCase text = also? at matched
    cases matched with
    | @some found also same =>
      obtain ⟨stop, actual⟩ := found
      obtain ⟨_, _⟩ := also
      cases same.2
      exact translated_found places _ _ same.1
    | none => exact translated_missed _ _
  | charRange low high => exact translated_character places _ _ _
  | any => exact translated_character places _ _ _
  | startOfInput => exact absurd rfl allowed
  | endOfInput =>
    have ends : here.atEnd = there.atEnd := by
      rw [places.1]
      exact there.atEnd_prepend key front
    simp only [Terminal.attempt, ends, offset]
    split
    · exact translated_found places _ _ places
    · exact translated_missed _ _
  | newline => exact translated_newline places _
  | skipUntil first rest =>
    have matched := translated_skipUntil places (first :: rest)
    have size : here.input.size = front.length + there.input.size := by
      rw [places.1]
      exact there.input.size_prepend key front
    simp only [Terminal.attempt, size]
    generalize here.skipUntil (first :: rest) = stop? at matched
    generalize there.skipUntil (first :: rest) = also? at matched
    cases matched with
    | some stops => exact translated_foundText places _ stops
    | none => exact translated_missAll _ _
  | skipChars count =>
    obtain ⟨reached, skipped, advances⟩ := there.skip_eq_ok count
    have moved : here.skip count = .ok (reached.map (·.prepend key front)) := by
      rw [places.1, there.skip_prepend, skipped]
      rfl
    simp only [Terminal.attempt, skipped, moved, offset, Action.ofExcept, pure_bind]
    cases reached with
    | none => exact translated_missed _ _
    | some stop =>
      have input := (advances stop rfl).input_eq.trans places.2
      exact translated_foundText places _ ⟨rfl, input⟩
  | alwaysFail => exact .pure .none
  | empty => exact translated_found places _ _ places
  | peek => exact translated_matchTop places .peek fun paired => paired
  | pop => exact translated_matchTop places .pop Stack.Paired.pop
  | peekAll => exact translated_matchSlice places .peekAll (fun paired => paired) 0 none
  | popAll => exact translated_matchSlice places .popAll Stack.Paired.clear 0 none
  | peekSlice start stop =>
    exact translated_matchSlice places .peekSlice (fun paired => paired) start stop
  | drop =>
    rw [Terminal.attempt_drop, Terminal.attempt_drop, offset]
    refine .bind (.gets fun states => states.stack.peek?) fun top also tops => ?_
    cases tops with
    | none => exact .bind (translated_record .emptyStack _) fun _ _ _ => .pure .none
    | some spans =>
      simp only [spans.text_eq]
      exact .bind (.changeItems Stack.Paired.pop) fun _ _ _ => translated_found places _ _ places

end Terminals

end Coupling

/-- The environment in which some text comes in front of the input. -/
def Env.prepend (env : Env) (key : Nat) (front : List Char) : Env :=
  { env with input := env.input.prepend key front }

theorem Node.mapItems_of_forall₂ {f : Span → Span} {items others : List (Option Node)}
    (nodes : Forall₂ (fun node other => node = Node.mapChild f other) items others) :
    items = Node.mapItems f others := by
  induction nodes with
  | nil => rfl
  | cons first _ ih => rw [first, ih, mapItems]

section Translated

variable {env : Env} {key : Nat} {front : List Char}

/-- An expression is made of the same parts on both sides. -/
theorem Expr.translated_shape {expr : Expr} (never : Throughout env Expr.NotStart expr) :
    (Coupling.translated env key front).Shape (env.prepend key front) env expr expr := by
  have parts : ∀ {exprs : List Expr}, (∀ part ∈ exprs, Throughout env Expr.NotStart part) →
      Forall₂ (Coupling.translated env key front).exprs exprs exprs := fun all =>
    List.forall₂_same.mpr fun part among => ⟨rfl, all part among⟩
  cases expr with
  | terminal leaf => exact .terminal fun start => never.self (congrArg Expr.terminal start)
  | seq first rest => exact .seq (parts fun part among => never.part (.seq among))
  | choice first rest => exact .choice (parts fun part among => never.part (.choice among))
  | opt body => exact .opt ⟨rfl, never.part .opt⟩
  | rep body min max => exact .rep ⟨rfl, never.part .rep⟩
  | positive body => exact .positive ⟨rfl, never.part .positive⟩
  | negative body => exact .negative ⟨rfl, never.part .negative⟩
  | restorable body => exact .restorable ⟨rfl, never.part .restorable⟩
  | push body => exact .push ⟨rfl, never.part .push⟩
  | rule tag name kind body => exact .rule rfl ⟨rfl, never.part .rule⟩
  | ref name =>
    refine .ref ?_
    change Option.Rel _ (env.rules.lookup name) (env.rules.lookup name)
    cases defined : env.rules.lookup name with
    | none => exact .none
    | some target => exact .some ⟨rfl, never.part (.ref defined)⟩
  | lazy cell =>
    refine .lazy ?_
    change AnswersAlike _ (env.definitions.resolve cell) (env.definitions.resolve cell)
    cases resolved : env.definitions.resolve cell with
    | error error => exact .error error
    | ok target => exact .ok ⟨rfl, never.part (.lazy resolved)⟩
  | ignored => exact .ignored
  | pair body => exact .pair ⟨rfl, never.part .pair⟩
  | abstract => exact .abstract

theorem Coupling.translated_lawful
    (skippers : ∀ skipper ∈ env.skippers, Throughout env Expr.NotStart skipper) :
    (Coupling.translated env key front).Lawful (env.prepend key front) env where
  shape := by
    rintro expr _ ⟨rfl, never⟩
    exact Expr.translated_shape never
  repeatLimit := rfl
  skippers := List.forall₂_same.mpr fun skipper among => ⟨rfl, skippers skipper among⟩
  faults _ := .inl rfl
  same := by
    rintro _ here _ there ⟨rfl, input⟩ ⟨rfl, same⟩
    have ids : here.input.id = there.input.id := by rw [input, same]
    rw [Bool.eq_iff_iff]
    simp only [Position.same, Position.prepend_input, Position.prepend_offset, Input.prepend_id,
      Bool.and_eq_true, beq_iff_eq, ids, true_and]
    exact Nat.add_left_cancel_iff
  spanTo := translated_spanTo
  attempt allowed places := translated_attempt places allowed
  nothing := rfl
  seq := by
    rintro span other items others moved nodes
    rw [moved.eq, Node.mapItems_of_forall₂ nodes]
    rfl
  choice := by
    rintro span other child _ index moved rfl
    rw [moved.eq]
    rfl
  opt := by
    rintro span other child _ moved rfl
    rw [moved.eq]
    rfl
  rep := by
    rintro span other items others moved nodes
    rw [moved.eq, Node.mapItems_of_forall₂ nodes]
    rfl
  predicate := by
    rintro span other child _ positive moved rfl
    rw [moved.eq]
    rfl
  push := by
    rintro span other child _ moved rfl
    rw [moved.eq]
    rfl
  rule := by
    rintro name kind _ span other child _ rfl moved rfl
    rw [moved.eq]
    unfold Clause.ruleNode
    split
    · rfl
    · split <;> rfl
  bodyAtomic := by
    rintro name kind _ atomic rfl
    rfl
  record := by
    rintro held other _ here failure ⟨rfl, _⟩ moved
    exact moved.record failure here.offset none
  text := by
    rintro body _ forced - ⟨rfl, _⟩
    rfl
  recordPredicate := by
    rintro held other _ here label text positive same ⟨rfl, _⟩ moved
    rw [same trivial]
    exact moved.record _ here.offset _
  enter scopes := scopes.eq id ▸ Tracker.enterAny_related (fun scope moved => moved.enter scope) _
  leave scopes := scopes.eq id ▸ Tracker.leaveAny_related (fun scope moved => moved.leave scope) _

end Translated

/-! ### Outcomes -/

/-- Two outcomes are the same, the one further on by some text that comes in front: the end of the
match and the spans of its nodes, the spans on the stack, and the place of the furthest failure. The
same failures are recorded in the same rules and lookaheads, and faults are the same. -/
inductive Outcome.Prepended (part : Input) (key : Nat) (front : List Char) :
    Outcome (Option Match) → Outcome (Option Match) → Prop
  | done (result : Option Match) {after also : State} :
      after.stack.Paired (Span.Prepended part key front) also.stack →
      Tracker.Moved front.length after.tracker also.tracker →
      Prepended part key front (.done (result.map (·.prepend key front)) after)
        (.done result also)
  | fault (cause : Fault) {after also : State} :
      after.stack.Paired (Span.Prepended part key front) also.stack →
      Tracker.Moved front.length after.tracker also.tracker →
      Prepended part key front (.fault cause after) (.fault cause also)

/-- Ends that correspond are the same further on, if none of them is about a position. -/
theorem Coupling.prepended {env : Env} {key : Nat} {front : List Char}
    {first second : Outcome (Option Match)}
    (ends : (Coupling.translated env key front).Ends
      (Coupling.translated env key front).Results first second)
    (valid : ∀ error after, second ≠ .fault (.position error) after) :
    Outcome.Prepended env.input key front first second := by
  cases ends with
  | @done result other after also results states =>
    have same : result = other.map (·.prepend key front) := by
      cases results with
      | none => rfl
      | @some found matched matches' =>
        obtain ⟨stop, node⟩ := found
        have stops : stop = matched.stop.prepend key front := matches'.stop.1
        have nodes : node = Node.mapChild (·.prepend key front) matched.node := matches'.node
        rw [stops, nodes]
        rfl
    rw [same]
    exact .done other states.stack states.tracker
  | fault cause states =>
    rcases cause with rfl | ⟨-, error, rfl⟩
    · exact .fault _ states.stack states.tracker
    · exact absurd rfl (valid error _)

/-- Matching never looks to the left of its start. If the start of the input is not asked for, be it
in the expression, in what it refers to or in what is ignored, then to match the expression at the
end of some text in front of the input comes to the same end as to match it at the start of the
input, but that all places are further on by the length of that text. -/
theorem matching_never_looks_back (env : Env) (key : Nat) (front : List Char) {expr : Expr}
    (never : Throughout env Expr.NotStart expr)
    (skippers : ∀ skipper ∈ env.skippers, Throughout env Expr.NotStart skipper) (atomic : Bool)
    (forced : List LazyCell) :
    EndTogether (Outcome.Prepended env.input key front)
      (run (env.prepend key front) · expr ((Position.start env.input).prepend key front)
        atomic { forced })
      (run env · expr (.start env.input) atomic { forced }) := by
  have states : (Coupling.translated env key front).States { forced } { forced } :=
    ⟨.empty, ⟨.refl _, rfl, .inl ⟨rfl, rfl⟩⟩, fun _ => rfl⟩
  have places : (Coupling.translated env key front).places
      ((Position.start env.input).prepend key front) (.start env.input) := ⟨rfl, rfl⟩
  have together := (Coupling.translated_lawful skippers).run_together trivial atomic
    ⟨rfl, never⟩ places states
  -- Faults about positions would differ, but there are none.
  refine together.mono fun moves others ends => Coupling.prepended ends fun error after => ?_
  have fulfils : Action.Fulfils (.matching False fun _ => True)
      (run env others expr (.start env.input) atomic)
      (Builds env expr atomic (.start env.input)) :=
    run_fulfils (fun _ _ => trivial) others expr atomic rfl
  exact fulfils.ne_position error

/-- A letter that comes twice: once as it is and once as what the stack holds. -/
def letterTwice : Expr := .seq (.push (.charRange 'a' 'z')) [.terminal .peek]

theorem letterTwice_never (env : Env) : Throughout env Expr.NotStart letterTwice := by
  refine .of_parts nofun fun part uses => ?_
  cases uses with
  | seq among =>
    rw [List.mem_cons, List.mem_singleton] at among
    rcases among with rfl | rfl
    · refine .of_parts nofun fun part uses => ?_
      cases uses with
      | push => exact .terminal nofun
    · exact .terminal nofun

/-- After another letter, the two letters are found one place further on, and the span that is left
on the stack is so, too. -/
theorem letter_twice_further_on :
    Outcome.Prepended ⟨0, #['a', 'a']⟩ 1 ['b']
        (run (Env.prepend { input := ⟨0, #['a', 'a']⟩ } 1 ['b']) 20 letterTwice
          ((Position.start ⟨0, #['a', 'a']⟩).prepend 1 ['b']) false {})
        (run { input := ⟨0, #['a', 'a']⟩ } 20 letterTwice (.start ⟨0, #['a', 'a']⟩) false {}) ∧
      ∃ found after, run { input := ⟨0, #['a', 'a']⟩ } 20 letterTwice (.start ⟨0, #['a', 'a']⟩)
        false {} = .done (some found) after ∧ found.stop.offset = 2 := by
  have further := matching_never_looks_back { input := ⟨0, #['a', 'a']⟩ } 1 ['b']
    (letterTwice_never _) nofun false []
  exact ⟨further.ends 20 20 nofun nofun, _, _, rfl, rfl⟩

end Peg
