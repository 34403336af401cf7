import Peg.Proofs.Action.Contracts
import Peg.Proofs.Grammar.Emptiness
import Peg.Proofs.Tree.Tiling

/-!
# Matching builds tilings

Every match that is answered is one that is put together as `Tiled` says, and no position or span
that is asked for on the way is refused. The two belong together: a span can be made because the
match of a part ends after it starts, which is known of the part by the same induction.

The induction is on the fuel of the recursive evaluation. Each loop is gone through once, with what
it has found so far as a row of tiles.
-/
namespace Peg

open Peg.Action (Fulfils)

/-- Matching never fails to make a position or a span. If it only sees spans of a kind on the stack,
it leaves only such there. -/
def Contract.matching (total : Prop) (fits : Span → Prop) : Contract where
  total := total
  items items := ∀ span ∈ items, fits span
  allows cause := ∀ error, cause ≠ .position error

/-- The result is no match, or a leaf over what was matched, which is not empty unless it may be. -/
inductive LeafAt (mayBeEmpty : Bool) (here : Position) : Option Match → Prop
  | missed : LeafAt mayBeEmpty here none
  | found {kind : TerminalKind} {span : Span} {value : String} {stop : Position} :
      span.Covers here stop → (mayBeEmpty = false → here.offset < stop.offset) →
      LeafAt mayBeEmpty here (some ⟨stop, some (.terminal kind span value)⟩)

section Terminals

variable {total : Prop} {fits : Span → Prop}

/-- From a position to a later one there is always a span. -/
theorem Action.span_fulfils {contract : Contract} {here stop : Position}
    (ordered : here.Precedes stop) :
    Fulfils contract (Action.span here stop) fun span => span.Covers here stop := by
  obtain ⟨span, made, covers⟩ := Span.spanTo_eq_ok ordered
  unfold Action.span
  rw [made]
  exact .pure covers

/-- What takes spans from the stack leaves spans that were there. -/
theorem Action.changeItems_fulfils {change : Stack Span → Stack Span}
    (fewer : ∀ stack, (change stack).items ⊆ stack.items) :
    Fulfils (.matching total fits) (Action.changeItems change) fun _ => True :=
  .modify fun state kept span among => kept span (fewer state.stack among)

namespace Terminal

variable {contract : Contract} {mayBeEmpty : Bool} {here stop : Position}

theorem found_fulfils (kind : TerminalKind) (value : String) (ordered : here.Precedes stop)
    (further : mayBeEmpty = false → here.offset < stop.offset) :
    Fulfils contract (found kind here stop value) (LeafAt mayBeEmpty here) :=
  .bind (Action.span_fulfils ordered) fun _ covers => .pure (.found covers further)

theorem foundText_fulfils (kind : TerminalKind) (ordered : here.Precedes stop)
    (further : mayBeEmpty = false → here.offset < stop.offset) :
    Fulfils contract (foundText kind here stop) (LeafAt mayBeEmpty here) :=
  .bind (Action.span_fulfils ordered) fun _ covers => .pure (.found covers further)

theorem missed_fulfils (change : Tracker → Tracker) :
    Fulfils contract (Action.track change >>= fun _ => pure none) (LeafAt mayBeEmpty here) :=
  .bind (.track change) fun _ _ => .pure .missed

theorem matchText_fulfils (here : Position) (text : String) :
    Fulfils contract (matchText here text) fun reached =>
      ∀ stop, reached = some stop → here.Precedes stop := by
  unfold matchText
  split
  next stop found =>
    refine .pure ?_
    rintro _ ⟨⟩
    exact (Position.matchLiteral_advances found).precedes
  · exact .bind (.track _) fun _ _ => .pure nofun

theorem matchTop_fulfils (kind : TerminalKind) {consume : Stack Span → Stack Span}
    (fewer : ∀ stack, (consume stack).items ⊆ stack.items) (here : Position) :
    Fulfils (.matching total fits) (matchTop kind consume here) (LeafAt true here) := by
  rw [matchTop_eq]
  refine .bind (.gets _) fun top _ => ?_
  cases top with
  | none => exact missed_fulfils _
  | some top =>
    refine .bind (matchText_fulfils here top.text) fun reached ordered => ?_
    cases reached with
    | none => exact .pure .missed
    | some stop =>
      exact .bind (Action.changeItems_fulfils fewer) fun _ _ =>
        found_fulfils kind top.text (ordered stop rfl) nofun

theorem matchSlice_fulfils (kind : TerminalKind) {consume : Stack Span → Stack Span}
    (fewer : ∀ stack, (consume stack).items ⊆ stack.items) (start : Int) (stop : Option Int)
    (here : Position) :
    Fulfils (.matching total fits) (matchSlice kind consume start stop here)
      (LeafAt true here) := by
  rw [matchSlice_eq]
  refine .bind (.gets _) fun spans _ => ?_
  cases spans with
  | none => exact missed_fulfils _
  | some spans =>
    refine .bind (matchText_fulfils here _) fun reached ordered => ?_
    cases reached with
    | none => exact .pure .missed
    | some stop =>
      exact .bind (Action.changeItems_fulfils fewer) fun _ _ =>
        foundText_fulfils kind (ordered stop rfl) nofun

/-- No line ending is empty. -/
theorem matchLineEnding_fulfils (here : Position) {endings : List (String × String)}
    (real : ∀ ending ∈ endings, 0 < ending.1.toList.length) :
    Fulfils contract (matchLineEnding here endings) (LeafAt false here) := by
  induction endings with
  | nil => exact missed_fulfils _
  | cons ending rest ih =>
    rw [List.forall_mem_cons] at real
    obtain ⟨text, name⟩ := ending
    unfold matchLineEnding
    split
    next stop found =>
      have advances := Position.matchLiteral_advances found
      exact found_fulfils .newline name advances.precedes fun _ => advances.offset_lt real.1
    · exact ih real.2

theorem missAll_fulfils (here : Position) (offset : Nat) (texts : List String) :
    Fulfils contract (missAll offset texts) (LeafAt true here) := by
  induction texts with
  | nil => exact .pure .missed
  | cons text rest ih => exact .bind (.track _) fun _ _ => ih

theorem pop_items_subset (stack : Stack Span) : stack.pop.2.items ⊆ stack.items := by
  rw [Stack.pop_items]
  exact fun _ => List.mem_of_mem_tail

theorem clear_items_subset (stack : Stack Span) : stack.clear.items ⊆ stack.items := by
  rw [Stack.clear_items]
  exact List.nil_subset stack.items

theorem length_pos_of_not_isEmpty {text : String} (full : text.isEmpty = false) :
    0 < text.toList.length :=
  List.length_pos_iff.mpr (mt String.toList_eq_nil_iff.mp (String.isEmpty_eq_false_iff.mp full))

/-- A terminal answers no match or a leaf, and it always ends. -/
theorem attempt_fulfils (leaf : Terminal) (here : Position) :
    Fulfils (.matching total fits) (leaf.attempt here) (LeafAt leaf.mayBeEmpty here) := by
  have kept : ∀ stack : Stack Span, (id stack).items ⊆ stack.items := fun stack =>
    List.Subset.refl stack.items
  cases leaf with
  | literal text =>
    simp only [attempt]
    split
    next stop found =>
      have advances := Position.matchLiteral_advances found
      exact found_fulfils .literal text advances.precedes fun full =>
        advances.offset_lt (length_pos_of_not_isEmpty full)
    · exact missed_fulfils _
  | insensitive text =>
    simp only [attempt]
    split
    next stop actual found =>
      have advances := Position.matchIgnoringCase_advances found
      exact found_fulfils .insens actual advances.precedes fun full =>
        advances.offset_lt (length_pos_of_not_isEmpty full)
    · exact missed_fulfils _
  | charRange low high =>
    simp only [attempt]
    split
    next stop c found =>
      have advances := Position.matchChar_advances found
      exact found_fulfils .char _ advances.precedes fun _ => advances.offset_lt Nat.one_pos
    · exact missed_fulfils _
  | any =>
    simp only [attempt]
    split
    next stop c found =>
      have advances := Position.matchChar_advances found
      exact found_fulfils .any _ advances.precedes fun _ => advances.offset_lt Nat.one_pos
    · exact missed_fulfils _
  | startOfInput | endOfInput =>
    simp only [attempt]
    split
    · exact found_fulfils _ _ (.refl here) (absurd ·.symm Bool.false_ne_true)
    · exact missed_fulfils _
  | newline =>
    have real : ∀ ending ∈ lineEndings, 0 < ending.1.toList.length := by decide
    exact matchLineEnding_fulfils here real
  | skipUntil first rest =>
    simp only [attempt]
    split
    next stop found =>
      have ordered := Position.skipUntil_precedes found
      exact foundText_fulfils .skip ordered (absurd ·.symm Bool.false_ne_true)
    · exact missAll_fulfils here _ _
  | skipChars count =>
    obtain ⟨reached, skipped, advances⟩ := Position.skip_eq_ok here count
    simp only [attempt]
    refine .bind (.ofExcept fun error failed => ?_) fun place made => ?_
    · cases skipped.symm.trans failed
    cases skipped.symm.trans made
    cases reached with
    | none => exact missed_fulfils _
    | some stop =>
      have advances := advances stop rfl
      refine foundText_fulfils .skip advances.precedes fun some => advances.offset_lt ?_
      exact Nat.pos_of_ne_zero (beq_eq_false_iff_ne.mp some)
  | alwaysFail => exact .pure .missed
  | empty => exact found_fulfils .empty "" (.refl here) (absurd ·.symm Bool.false_ne_true)
  | peek => exact matchTop_fulfils .peek kept here
  | pop => exact matchTop_fulfils .pop pop_items_subset here
  | peekAll => exact matchSlice_fulfils .peekAll kept 0 none here
  | popAll => exact matchSlice_fulfils .popAll clear_items_subset 0 none here
  | peekSlice start stop => exact matchSlice_fulfils .peekSlice kept start stop here
  | drop =>
    rw [attempt_drop]
    refine .bind (.gets _) fun top _ => ?_
    cases top with
    | none => exact missed_fulfils _
    | some top =>
      exact .bind (Action.changeItems_fulfils pop_items_subset) fun _ _ =>
        found_fulfils .drop top.text (.refl here) (absurd ·.symm Bool.false_ne_true)

end Terminal

end Terminals

/-- The result is no match, or one that is put together as the expression says. -/
def Builds (env : Env) (expr : Expr) (atomic : Bool) (here : Position) (result : Option Match) :
    Prop :=
  ∀ found, result = some found → Tiled env expr atomic here found.node found.stop

/-- What is known of the result of a part: how it is put together, and that it is one at all. -/
structure Matched (env : Env) (expr : Expr) (here : Position) (atomic : Bool)
    (result : Option Match) : Prop where
  builds : Builds env expr atomic here result
  finishes : ∃ before after, Finishes env expr here atomic before result after

/-- The matches that a loop has found so far. -/
structure Laid (env : Env) (atomic : Bool) (start : Position) (tiles : List Tile)
    (here : Position) (found : Array (Option Node)) : Prop where
  row : Row env atomic start tiles here
  built : ∀ tile ∈ tiles, Tiled env tile.expr atomic tile.start tile.node tile.stop
  nodes : found.toList = tiles.map Tile.node

namespace Laid

variable {env : Env} {atomic : Bool} {start here : Position} {tiles : List Tile}
  {found : Array (Option Node)}

theorem nil (env : Env) (atomic : Bool) (start : Position) : Laid env atomic start [] start #[] :=
  ⟨.nil, nofun, rfl⟩

theorem size_eq (laid : Laid env atomic start tiles here found) : found.size = tiles.length := by
  rw [← Array.length_toList, laid.nodes, List.length_map]

theorem isEmpty_eq (laid : Laid env atomic start tiles here found) :
    found.isEmpty = tiles.isEmpty := by
  rw [← Array.isEmpty_toList, laid.nodes, List.isEmpty_map]

theorem precedes (laid : Laid env atomic start tiles here found) : start.Precedes here :=
  laid.row.precedes fun tile among => (laid.built tile among).precedes

/-- One more match, after ignored text where it may stand. -/
theorem push (laid : Laid env atomic start tiles here found) {expr : Expr} {there stop : Position}
    {node : Option Node} (gap : Gap env (found.isEmpty || atomic) here there)
    (tiled : Tiled env expr atomic there node stop) :
    Laid env atomic start (tiles ++ [⟨expr, there, node, stop⟩]) stop (found.push node) := by
  refine ⟨?_, ?_, ?_⟩
  · rw [laid.isEmpty_eq] at gap
    exact laid.row.snoc gap
  · rw [List.forall_mem_append, List.forall_mem_singleton]
    exact ⟨laid.built, tiled⟩
  · rw [Array.toList_push, laid.nodes, List.map_append, List.map_singleton]

end Laid

theorem Tiled.gap {env : Env} {atomic : Bool} {here stop : Position} {node : Option Node}
    (tiled : Tiled env .ignored atomic here node stop) : Gap env atomic here stop := by
  cases tiled
  assumption

/-! ### Loops -/

section Loops

open Eval

variable {env : Env} {run : Matcher} {fits : Span → Prop} {input : Input}
  (parts : ∀ expr here atomic, here.input = input →
    Fulfils (.matching False fits) (run expr here atomic) (Matched env expr here atomic))

include parts

theorem gapUnless_fulfils (forbidden : Bool) {here : Position} (inside : here.input = input) :
    Fulfils (.matching False fits) (gapUnless run forbidden here) (Gap env forbidden here) := by
  cases forbidden with
  | true => exact .pure (.refl env true here)
  | false =>
    refine .bind (parts .ignored here false inside) fun result skipped => .pure ?_
    cases result with
    | none => exact .refl env false here
    | some found => exact (skipped.builds found rfl).gap

theorem items_fulfils {first : Expr} {others exprs : List Expr} {atomic : Bool}
    {start here : Position} {tiles : List Tile} {found : Array (Option Node)}
    (inside : start.input = input) (laid : Laid env atomic start tiles here found)
    (whole : tiles.map Tile.expr ++ exprs = first :: others) :
    Fulfils (.matching False fits) (items run atomic start exprs here found)
      (Builds env (.seq first others) atomic start) := by
  induction exprs generalizing tiles here found with
  | nil =>
    refine .bind (Action.span_fulfils laid.precedes) fun span covers => .pure ?_
    rintro _ ⟨⟩
    rw [List.append_nil] at whole
    rw [laid.nodes]
    exact .seq whole laid.row laid.built covers
  | cons expr rest ih =>
    have reached := laid.precedes.input_eq.trans inside
    refine .bind (gapUnless_fulfils parts _ reached) fun there gap => ?_
    have onward := gap.ignorable.precedes.input_eq.trans reached
    refine .bind (parts expr there atomic onward) fun result matched => ?_
    cases result with
    | none => exact .pure nofun
    | some item =>
      -- The row goes on with the match of this item.
      refine ih (laid.push gap (matched.builds item rfl)) ?_
      rw [List.map_append, List.append_assoc]
      exact whole

theorem alternatives_fulfils {first : Expr} {others exprs : List Expr} {atomic : Bool}
    {start : Position} {index : Nat} (inside : start.input = input)
    (left : (first :: others).drop index = exprs) :
    Fulfils (.matching False fits) (alternatives run atomic start index exprs)
      (Builds env (.choice first others) atomic start) := by
  induction exprs generalizing index with
  | nil => exact .pure nofun
  | cons expr rest ih =>
    refine .bind (parts expr start atomic inside) fun result matched => ?_
    cases result with
    | none =>
      refine ih ?_
      rw [← List.drop_drop, left, List.drop_one, List.tail_cons]
    | some found =>
      have tiled := matched.builds found rfl
      refine .bind (Action.span_fulfils tiled.precedes) fun span covers => .pure ?_
      rintro _ ⟨⟩
      refine .choice ?_ tiled covers
      rw [← List.head?_drop, left, List.head?_cons]

omit parts in
/-- The end of a repetition, at its last match or after ignored text that no match follows. -/
theorem repClause_fulfils {body : Expr} {min : Nat} {max : Option Nat} {atomic : Bool}
    {start last stop : Position} {tiles : List Tile} {found : Array (Option Node)}
    (laid : Laid env atomic start tiles last found) (same : ∀ tile ∈ tiles, tile.expr = body)
    (gap : Gap env (found.isEmpty || atomic) last stop)
    (full : max = some found.size → stop = last) :
    Fulfils (.matching False fits) (Clause.rep min start stop found)
      (Builds env (.rep body min max) atomic start) := by
  unfold Clause.rep
  split
  · exact .pure nofun
  next enough =>
    have ordered := laid.precedes.trans gap.ignorable.precedes
    refine .bind (Action.span_fulfils ordered) fun span covers => .pure ?_
    rintro _ ⟨⟩
    rw [laid.isEmpty_eq] at gap
    rw [laid.size_eq] at enough full
    rw [laid.nodes]
    exact .rep (Nat.not_lt.mp enough) same laid.row laid.built gap full covers

theorem repetition_fulfils {body : Expr} {min : Nat} {max : Option Nat} {atomic : Bool}
    {start here : Position} {tiles : List Tile} {found : Array (Option Node)}
    (inside : start.input = input) (fuel : Nat) (laid : Laid env atomic start tiles here found)
    (same : ∀ tile ∈ tiles, tile.expr = body) :
    Fulfils (.matching False fits) (repetition env run body min max atomic start fuel here found)
      (Builds env (.rep body min max) atomic start) := by
  induction fuel generalizing tiles here found with
  | zero => exact .exhausted id
  | succ fuel ih =>
    unfold repetition
    split
    -- At the greatest number of matches nothing more is skipped.
    · exact repClause_fulfils laid same (.refl env _ here) fun _ => rfl
    next room =>
      have reached := laid.precedes.input_eq.trans inside
      refine .bind (gapUnless_fulfils parts _ reached) fun there gap => ?_
      have onward := gap.ignorable.precedes.input_eq.trans reached
      refine .bind (parts body there atomic onward) fun result matched => ?_
      cases result with
      | none =>
        -- What was skipped before the body failed stays a part of the repetition.
        refine repClause_fulfils laid same gap ?_
        rintro rfl
        exact absurd (decide_eq_true (Nat.le_refl found.size)) room
      | some item =>
        dsimp only
        split
        · exact .bind (.track _) fun _ _ => .pure nofun
        · refine ih (laid.push gap (matched.builds item rfl)) ?_
          rw [List.forall_mem_append, List.forall_mem_singleton]
          exact ⟨same, rfl⟩

theorem skipOne_fulfils {skipper : Expr} (among : skipper ∈ env.skippers) (fuel : Nat)
    {here : Position} (inside : here.input = input) (progress : Bool) :
    Fulfils (.matching False fits) (skipOne run skipper fuel here progress) fun reached =>
      Ignorable env here reached.1 := by
  induction fuel generalizing here progress with
  | zero => exact .exhausted id
  | succ fuel ih =>
    refine .bind (parts skipper here true inside) fun result matched => ?_
    cases result with
    | none => exact .pure .none
    | some found =>
      have ordered := (matched.builds found rfl).precedes
      obtain ⟨before, after, finishes⟩ := matched.finishes
      dsimp only
      split
      -- A match that does not go on is given up, so that no empty one is kept.
      · exact .pure .none
      next moved =>
        have further := ordered.offset_lt_of_not_same moved
        exact (ih (ordered.input_eq.trans inside) true).mono fun _ onward =>
          .more among finishes ordered further onward

theorem skipEach_fulfils (fuel : Nat) {skippers : List Expr} (among : skippers ⊆ env.skippers)
    {here : Position} (inside : here.input = input) (progress : Bool) :
    Fulfils (.matching False fits) (skipEach run fuel skippers here progress) fun reached =>
      Ignorable env here reached.1 := by
  induction skippers generalizing here progress with
  | nil => exact .pure .none
  | cons skipper rest ih =>
    rw [List.cons_subset] at among
    refine .bind (skipOne_fulfils parts among.1 fuel inside progress) fun reached skipped => ?_
    have onward := skipped.precedes.input_eq.trans inside
    exact (ih among.2 onward reached.2).mono fun _ => skipped.trans

theorem skipAll_fulfils (fuel : Nat) {here : Position} (inside : here.input = input) :
    Fulfils (.matching False fits) (skipAll run env.skippers fuel here) (Ignorable env here) := by
  induction fuel generalizing here with
  | zero => exact .exhausted id
  | succ fuel ih =>
    have round := skipEach_fulfils parts fuel (List.Subset.refl env.skippers) inside false
    refine .bind round fun reached skipped => ?_
    dsimp only
    split
    · exact (ih (skipped.precedes.input_eq.trans inside)).mono fun _ => skipped.trans
    · exact .pure skipped

theorem ignored_fulfils (fuel : Nat) {start : Position} (inside : start.input = input)
    (atomic : Bool) :
    Fulfils (.matching False fits) (ignored env run fuel start atomic)
      (Builds env .ignored atomic start) := by
  unfold ignored
  split
  · refine .pure ?_
    rintro _ ⟨⟩
    exact .ignored (.refl env atomic start)
  next runs =>
    obtain ⟨rfl, _⟩ := Bool.or_eq_false_iff.mp (Bool.eq_false_iff.mpr runs)
    refine .bind ((skipAll_fulfils parts fuel inside).within .muted) fun stop skipped => .pure ?_
    rintro _ ⟨⟩
    exact .ignored ⟨skipped, nofun⟩

theorem pair_fulfils (body : Expr) {start : Position} (inside : start.input = input)
    (atomic : Bool) :
    Fulfils (.matching False fits) (pair run body start atomic)
      (Builds env (.pair body) atomic start) := by
  refine .bind (parts body start atomic inside) fun result matched => ?_
  cases result with
  | none => exact .pure nofun
  | some first =>
    have early := matched.builds first rfl
    have onward := early.precedes.input_eq.trans inside
    refine .bind (parts body first.stop atomic onward) fun result matched => ?_
    cases result with
    | none => exact .pure nofun
    | some second =>
      have late := matched.builds second rfl
      have ordered := early.precedes.trans late.precedes
      refine .bind (Action.span_fulfils ordered) fun span covers => .pure ?_
      rintro _ ⟨⟩
      exact .pair early late covers

end Loops

/-! ### Single parts -/

section Clauses

variable {env : Env} {fits : Span → Prop} {body : Expr} {atomic : Bool} {start : Position}
  {result : Option Match}

theorem optNode_fulfils (builds : Builds env body atomic start result) :
    Fulfils (.matching False fits) (Clause.optNode start result)
      (Builds env (.opt body) atomic start) := by
  cases result with
  | none =>
    refine .bind (Action.span_fulfils (.refl start)) fun span covers => .pure ?_
    rintro _ ⟨⟩
    exact .optAbsent covers
  | some found =>
    have tiled := builds found rfl
    refine .bind (Action.span_fulfils tiled.precedes) fun span covers => .pure ?_
    rintro _ ⟨⟩
    exact .optPresent tiled covers

theorem positiveNode_fulfils (builds : Builds env body atomic start result) :
    Fulfils (.matching False fits) (Clause.positiveNode env body start result)
      (Builds env (.positive body) atomic start) := by
  cases result with
  | none => exact .bind (.textOf env body nofun) fun _ _ => .bind (.track _) fun _ _ => .pure nofun
  | some found =>
    refine .bind (Action.span_fulfils (.refl start)) fun span covers => .pure ?_
    rintro _ ⟨⟩
    exact .positive (builds found rfl) covers

theorem negativeNode_fulfils (env : Env) (body : Expr) (atomic : Bool) (start : Position)
    (result : Option Match) :
    Fulfils (.matching False fits) (Clause.negativeNode env body start result)
      (Builds env (.negative body) atomic start) := by
  cases result with
  | none =>
    refine .bind (Action.span_fulfils (.refl start)) fun span covers => .pure ?_
    rintro _ ⟨⟩
    exact .negative covers
  | some found =>
    exact .bind (.textOf env body nofun) fun _ _ => .bind (.track _) fun _ _ => .pure nofun

theorem restorable_builds (builds : Builds env body atomic start result) :
    Builds env (.restorable body) atomic start result :=
  fun found matched => .restorable (builds found matched)

/-- The span that is put on the stack lies in the input. -/
theorem pushClause_fulfils (admits : ∀ span : Span, span.Within start.input → fits span)
    (builds : Builds env body atomic start result) :
    Fulfils (.matching False fits) (Clause.push start result)
      (Builds env (.push body) atomic start) := by
  cases result with
  | none => exact .pure nofun
  | some found =>
    have tiled := builds found rfl
    refine .bind (Action.span_fulfils tiled.precedes) fun span covers => ?_
    refine .bind (.modify fun state kept => ?_) fun _ _ => .pure ?_
    · rw [Stack.push, Stack.record_items]
      exact List.forall_mem_cons.mpr ⟨admits span covers.within, kept⟩
    · rintro _ ⟨⟩
      exact .push tiled covers

theorem ruleClause_fulfils (tag : Nat) (name : String) (kind : RuleKind)
    (builds : Builds env body (kind.bodyAtomic atomic) start result) :
    Fulfils (.matching False fits) (Clause.rule env name kind start result)
      (Builds env (.rule tag name kind body) atomic start) := by
  cases result with
  | none => exact .bind (.emit env _) fun _ _ => .pure nofun
  | some found =>
    have tiled := builds found rfl
    refine .bind (.emit env _) fun _ _ => ?_
    dsimp only
    split
    next silent =>
      subst silent
      refine .pure ?_
      rintro _ ⟨⟩
      exact .silent tiled
    next loud =>
      refine .bind (Action.span_fulfils tiled.precedes) fun span covers => .pure ?_
      rintro _ ⟨⟩
      exact .rule loud tiled covers

end Clauses

theorem attempt_builds {env : Env} {fits : Span → Prop} (leaf : Terminal) (atomic : Bool)
    (start : Position) :
    Fulfils (.matching False fits) (leaf.attempt start)
      (Builds env (.terminal leaf) atomic start) := by
  refine (leaf.attempt_fulfils start).answered.mono ?_
  rintro result ⟨isLeaf, before, after, attempted⟩ found rfl
  cases isLeaf with
  | found covers => exact .terminal attempted covers

/-- Whatever is matched, the matches are put together as the expression says, no position or span
is refused, and what is put on the stack lies in the input. -/
theorem eval_fulfils (env : Env) {fits : Span → Prop} {input : Input}
    (admits : ∀ span : Span, span.Within input → fits span) (fuel : Nat) (expr : Expr)
    (start : Position) (atomic : Bool) (inside : start.input = input) :
    Fulfils (.matching False fits) (eval env fuel expr start atomic)
      (Builds env expr atomic start) := by
  have undefined : ∀ name, (Contract.matching False fits).allows (.undefinedRule name) :=
    fun _ => nofun
  have unbuilt : ∀ error, (Contract.matching False fits).allows (.build error) := fun _ => nofun
  induction fuel generalizing expr start atomic with
  | zero => exact .exhausted id
  | succ fuel ih =>
    -- The parts run on less fuel; that they did is what makes their results matches.
    have parts : ∀ expr here atomic, here.input = input →
        Fulfils (.matching False fits) (eval env fuel expr here atomic)
          (Matched env expr here atomic) := by
      intro expr here atomic inside
      refine (ih expr here atomic inside).answered.mono ?_
      rintro result ⟨builds, before, after, ended⟩
      exact ⟨builds, before, after, finishes_iff_eval.mpr ⟨fuel, ended⟩⟩
    have balanced := Balanced.eval env fuel
    cases expr with
    | terminal leaf => exact attempt_builds leaf atomic start
    | seq first rest => exact items_fulfils parts inside (.nil env atomic start) rfl
    | choice first rest => exact alternatives_fulfils parts inside rfl
    | opt body =>
      rw [eval_opt]
      have body := Fulfils.transaction Option.isSome (balanced body start atomic)
        (ih body start atomic inside)
      exact body.bind fun result => optNode_fulfils
    | rep body min max =>
      exact repetition_fulfils parts inside fuel (.nil env atomic start) nofun
    | positive body =>
      rw [eval_positive]
      have body := Fulfils.transaction (fun _ => false)
        ((balanced body start atomic).within (.lookahead .positive))
        ((ih body start atomic inside).within (.lookahead .positive))
      exact body.bind fun result => positiveNode_fulfils
    | negative body =>
      rw [eval_negative]
      have inner := Fulfils.transaction (fun _ => false)
        ((balanced body start atomic).within (.lookahead .negative))
        ((ih body start atomic inside).within (.lookahead .negative))
      exact inner.bind fun result _ => negativeNode_fulfils env body atomic start result
    | restorable body =>
      rw [eval_restorable]
      have inner := Fulfils.transaction Option.isSome (balanced body start atomic)
        (ih body start atomic inside)
      exact inner.mono fun result => restorable_builds
    | push body =>
      subst inside
      exact (ih body start atomic rfl).bind fun result => pushClause_fulfils admits
    | rule tag name kind body =>
      refine .bind (.emit env _) fun _ _ => ?_
      have inner := (ih body start (kind.bodyAtomic atomic) inside).withinAny
        (Clause.ruleScope name kind)
      exact inner.bind fun result => ruleClause_fulfils tag name kind
    | ref name =>
      refine .bind (.lookupRule env name (undefined name)) fun target defined => ?_
      exact (ih target start atomic inside).mono fun result builds found matched =>
        .ref defined (builds found matched)
    | lazy cell =>
      refine .bind (.force env cell unbuilt) fun target resolved => ?_
      exact (ih target start atomic inside).mono fun result builds found matched =>
        .lazy resolved (builds found matched)
    | ignored => exact ignored_fulfils parts fuel inside atomic
    | pair body => exact pair_fulfils parts body inside atomic
    | abstract => exact .fail nofun

theorem Builds.of_eval {env : Env} {expr : Expr} {start : Position} {atomic : Bool} {fuel : Nat}
    {before after : State} {result : Option Match}
    (ended : eval env fuel expr start atomic before = .done result after) :
    Builds env expr atomic start result := by
  have admits : ∀ span : Span, span.Within start.input → True := fun _ _ => trivial
  have kept := eval_fulfils env admits fuel expr start atomic rfl before fun _ _ => trivial
  rw [ended] at kept
  exact kept.2

end Peg
