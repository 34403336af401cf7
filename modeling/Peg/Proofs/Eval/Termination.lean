import Peg.Proofs.Action.Halting
import Peg.Proofs.Grammar.LeftCalls
import Peg.Proofs.Tree.Progress

/-!
# Matching without left recursion halts

An expression asks for its parts at the place where it was tried itself, or further on. Further on
less of the text is left; at the same place it only makes left calls, of which there is no endless
chain. So matching halts by induction on what is left of the text, and inside by induction on left
calls.

Each loop has a reason of its own. The items of a sequence and the alternatives of a choice are
finitely many. A repetition is stopped by the limit or by its greatest number of matches, and
otherwise each match of it goes on. Ignored text is only skipped again after it went on.
-/
namespace Peg

open Peg.Action (Fulfils Halts)
open Eval

/-! ### Clauses -/

/-- Nothing is asked of an action but that it ends. -/
def Contract.ending : Contract := ⟨True, fun _ => True, fun _ => True⟩

theorem halts_of_ends {α : Type} {action : Action α} {holds : α → Prop}
    (fulfils : Fulfils .ending action holds) : Halts (fun _ => action) holds :=
  .of_fulfils fulfils trivial fun _ => trivial

namespace Clause

theorem answer_ends (start stop : Position) (node : Span → Option Match) :
    Fulfils .ending (Action.span start stop >>= fun span => pure (node span)) fun _ => True :=
  .bind (.ofExcept fun _ _ => trivial) fun _ _ => .pure trivial

theorem changeStack_ends (change : Stack Span → Except StackError (Stack Span)) :
    Fulfils .ending (Action.changeStack change) fun _ => True :=
  .bind (.gets _) fun _ _ => .bind (.ofExcept fun _ _ => trivial) fun _ _ =>
    .modify fun _ _ => trivial

theorem failure_ends (change : Tracker → Tracker) :
    Fulfils .ending (Action.track change >>= fun _ => pure (none : Option Match)) fun _ => True :=
  .bind (.track change) fun _ _ => .pure trivial

theorem opt_ends (start : Position) (result : Option Match) :
    Fulfils .ending (opt start result) fun _ => True := by
  cases result with
  | none | some => exact .bind (changeStack_ends _) fun _ _ => answer_ends _ _ _

theorem rep_ends (min : Nat) (start stop : Position) (items : Array (Option Node)) :
    Fulfils .ending (rep min start stop items) fun _ => True := by
  unfold rep
  split
  · exact .pure trivial
  · exact answer_ends start stop _

theorem positive_ends (env : Env) (body : Expr) (start : Position) (result : Option Match) :
    Fulfils .ending (positive env body start result) fun _ => True := by
  refine .bind (changeStack_ends _) fun _ _ => ?_
  cases result with
  | none => exact .bind (.textOf env body trivial) fun _ _ => failure_ends _
  | some => exact answer_ends start start _

theorem negative_ends (env : Env) (body : Expr) (start : Position) (result : Option Match) :
    Fulfils .ending (negative env body start result) fun _ => True := by
  refine .bind (changeStack_ends _) fun _ _ => ?_
  cases result with
  | none => exact answer_ends start start _
  | some => exact .bind (.textOf env body trivial) fun _ _ => failure_ends _

theorem restorable_ends (result : Option Match) :
    Fulfils .ending (restorable result) fun _ => True := by
  cases result with
  | none | some => exact .bind (changeStack_ends _) fun _ _ => .pure trivial

theorem push_ends (start : Position) (result : Option Match) :
    Fulfils .ending (push start result) fun _ => True := by
  cases result with
  | none => exact .pure trivial
  | some found =>
    exact .bind (.ofExcept fun _ _ => trivial) fun _ _ => .bind (.modify fun _ _ => trivial)
      fun _ _ => .pure trivial

theorem rule_ends (env : Env) (name : String) (kind : RuleKind) (start : Position)
    (result : Option Match) : Fulfils .ending (rule env name kind start result) fun _ => True := by
  cases result with
  | none => exact .bind (.emit env _) fun _ _ => .pure trivial
  | some found =>
    refine .bind (.emit env _) fun _ _ => ?_
    dsimp only
    split
    · exact .pure trivial
    · exact answer_ends start found.stop _

end Clause

/-! ### Loops -/

/-- What an expression may ask for is matched in the end: whatever it calls further on, and whatever
it calls left where it was tried. -/
def PartsHalt (env : Env) (run : Nat → Matcher) (config : Expr × Bool) (start : Position) : Prop :=
  ∀ part there, Calls env config part → start.Precedes there →
    (there.offset = start.offset → LeftCalls env config part) →
    Halts (fun fuel => run fuel part.1 there part.2) (Builds env part.1 part.2 there)

theorem PartsHalt.later {env : Env} {run : Nat → Matcher} {config : Expr × Bool}
    {start : Position} (parts : PartsHalt env run config start) :
    PartsHalt env (fun fuel => run (fuel + 1)) config start :=
  fun part there calls ordered left => (parts part there calls ordered left).later

section Loops

variable {env : Env} {run : Nat → Matcher} {start : Position}

theorem gapUnless_halts {config : Expr × Bool} (parts : PartsHalt env run config start)
    {here : Position} (ordered : start.Precedes here) (forbidden : Bool)
    (called : forbidden = false → Calls env config (.ignored, false) ∧
      (here.offset = start.offset → LeftCalls env config (.ignored, false))) :
    Halts (fun fuel => gapUnless (run fuel) forbidden here) (Gap env forbidden here) := by
  cases forbidden with
  | true => exact .pure (.refl env true here)
  | false =>
    obtain ⟨calls, left⟩ := called rfl
    refine (parts _ here calls ordered left).bind fun result builds => .pure ?_
    cases result with
    | none => exact .refl env false here
    | some found => exact (builds found rfl).gap

theorem items_halts {first : Expr} {others exprs before : List Expr} {atomic : Bool}
    {here : Position} {found : Array (Option Node)}
    (parts : PartsHalt env run (.seq first others, atomic) start)
    (whole : first :: others = before ++ exprs) (begun : found.isEmpty = before.isEmpty)
    (ordered : start.Precedes here)
    (passed : here.offset = start.offset → ∀ item ∈ before, PossiblyEmpty env item) :
    Halts (fun fuel => items (run fuel) atomic start exprs here found) fun _ => True := by
  induction exprs generalizing before here found with
  | nil => exact halts_of_ends (Clause.answer_ends start here _)
  | cons expr rest ih =>
    refine (gapUnless_halts parts ordered _ fun open_ => ?_).bind fun there gap => ?_
    · -- A gap is only asked for after an item.
      obtain ⟨some, rfl⟩ := Bool.or_eq_false_iff.mp open_
      have started : before ≠ [] := by
        rintro rfl
        cases begun.symm.trans some
      exact ⟨.seqGap whole started fun _ _ => trivial, fun same =>
        .seqGap whole started (passed same)⟩
    have skipped := gap.ignorable.precedes
    have onward := ordered.trans skipped
    have still (same : there.offset = start.offset) : here.offset = start.offset :=
      Nat.le_antisymm (same ▸ skipped.offset_le) ordered.offset_le
    refine (parts (expr, atomic) there (.seqItem whole fun _ _ => trivial) onward fun same =>
      .seqItem whole (passed (still same))).bind fun result builds => ?_
    cases result with
    | none => exact .pure trivial
    | some item =>
      have tiled := builds item rfl
      have further := tiled.precedes
      refine @ih (before ++ [expr]) item.stop (found.push item.node) ?_ ?_ (onward.trans further)
        fun same => ?_
      · rw [List.append_assoc]
        exact whole
      · simp
      · have unmoved : there.offset = start.offset :=
          Nat.le_antisymm (same ▸ further.offset_le) onward.offset_le
        rw [List.forall_mem_append, List.forall_mem_singleton]
        exact ⟨passed (still unmoved), tiled.possiblyEmpty (same.trans unmoved.symm)⟩

theorem alternatives_halts {first : Expr} {others exprs : List Expr} {atomic : Bool}
    (parts : PartsHalt env run (.choice first others, atomic) start)
    (among : exprs ⊆ first :: others) (index : Nat) :
    Halts (fun fuel => alternatives (run fuel) atomic start index exprs) fun _ => True := by
  induction exprs generalizing index with
  | nil => exact .pure trivial
  | cons expr rest ih =>
    rw [List.cons_subset] at among
    refine (parts (expr, atomic) start (.choice among.1) (.refl start) fun _ =>
      .choice among.1).bind fun result builds => ?_
    cases result with
    | none => exact ih among.2 (index + 1)
    | some found => exact halts_of_ends (Clause.answer_ends start found.stop _)

theorem lt_of_not_full {max : Option Nat} {count most : Nat}
    (room : ¬max.any (· ≤ count) = true) (bound : max = some most) : count < most := by
  subst bound
  simpa using room

/-- With each match of a repetition that goes on, what is left of its rounds gets less. -/
def Runs (env : Env) (body : Expr) (max : Option Nat) (atomic : Bool)
    (rounds : Position → Nat → Nat) : Prop :=
  ∀ {here there stop : Position} {count : Nat} {node : Option Node},
    ¬max.any (· ≤ count) = true → here.Precedes there → Tiled env body atomic there node stop →
    Clause.beyondLimit env (count + 1) = none → rounds stop (count + 1) < rounds here count

/-- A limit or a greatest number of matches bounds the rounds, and otherwise the text does, if no
match is empty. -/
theorem exists_runs {body : Expr} {max : Option Nat} (atomic : Bool)
    (bounded : env.repeatLimit ≠ none ∨ max ≠ none ∨ ¬PossiblyEmpty env body) :
    ∃ rounds, Runs env body max atomic rounds := by
  cases limit : env.repeatLimit with
  | some most =>
    refine ⟨fun _ count => most + 1 - count, ?_⟩
    intro here there stop count node _ _ _ inside
    have bound : count + 1 ≤ most := by
      simpa [Clause.beyondLimit, limit] using inside
    dsimp only
    omega
  | none =>
    cases max with
    | some most =>
      refine ⟨fun _ count => most - count, ?_⟩
      intro here there stop count node room _ _ _
      have below := lt_of_not_full room rfl
      dsimp only
      omega
    | none =>
      have full : ¬PossiblyEmpty env body := by simpa [limit] using bounded
      refine ⟨fun here _ => here.remaining, ?_⟩
      intro here there stop count node _ ordered tiled _
      have further := tiled.precedes
      have moved : stop.offset ≠ there.offset := fun same => full (tiled.possiblyEmpty same)
      have least := ordered.offset_le
      have between := further.offset_le
      exact (ordered.trans further).remaining_lt (by omega)

theorem repetition_halts {body : Expr} {min : Nat} {max : Option Nat} {atomic : Bool}
    {rounds : Position → Nat → Nat} (runs : Runs env body max atomic rounds)
    (parts : PartsHalt env run (.rep body min max, atomic) start) {here : Position}
    {found : Array (Option Node)} (ordered : start.Precedes here)
    (passed : found.isEmpty = false → here.offset = start.offset → PossiblyEmpty env body) :
    Halts (fun fuel => repetition env (run fuel) body min max atomic start fuel here found)
      fun _ => True := by
  induction left : rounds here found.size using Nat.strongRecOn generalizing run here found with
  | ind left ih =>
    refine .of_succ rfl ?_
    simp only [repetition]
    split
    · exact halts_of_ends (Clause.rep_ends min start here found)
    next room =>
      have some : max ≠ some 0 := fun none => Nat.not_lt_zero _ (lt_of_not_full room none)
      refine (gapUnless_halts parts.later ordered _ fun open_ => ?_).bind fun there gap => ?_
      · -- After a match, and with room for another one, at least two matches are allowed.
        obtain ⟨begun, rfl⟩ := Bool.or_eq_false_iff.mp open_
        have several : max ≠ Option.some 1 := by
          intro one
          have none := Nat.lt_one_iff.mp (lt_of_not_full room one)
          rw [Array.isEmpty_eq_false_iff, ne_eq, ← Array.size_eq_zero_iff] at begun
          exact begun none
        exact ⟨.repGap some several trivial, fun same => .repGap some several (passed begun same)⟩
      have skipped := gap.ignorable.precedes
      have onward := ordered.trans skipped
      refine (parts.later (body, atomic) there (.rep some) onward fun _ => .rep some).bind
        fun result builds => ?_
      cases result with
      | none => exact halts_of_ends (Clause.rep_ends min start there found)
      | some item =>
        have tiled := builds item rfl
        have further := tiled.precedes
        dsimp only
        split
        · exact halts_of_ends (Clause.failure_ends _)
        next inside =>
          rw [Array.size_push] at inside
          have fewer := runs room skipped tiled inside
          refine ih _ ?_ parts.later (onward.trans further) (fun _ same => ?_) rfl
          · rw [← left, Array.size_push]
            exact fewer
          · have unmoved : there.offset = start.offset :=
              Nat.le_antisymm (same ▸ further.offset_le) onward.offset_le
            exact tiled.possiblyEmpty (same.trans unmoved.symm)

theorem skipOne_halts {skipper : Expr} (among : skipper ∈ env.skippers)
    (parts : PartsHalt env run (.ignored, false) start) {here : Position}
    (ordered : start.Precedes here) (progress : Bool) :
    Halts (fun fuel => skipOne (run fuel) skipper fuel here progress) fun reached =>
      here.Precedes reached.1 ∧
        (reached.2 = true → progress = true ∨ here.offset < reached.1.offset) := by
  induction left : here.remaining using Nat.strongRecOn generalizing run here progress with
  | ind left ih =>
    refine .of_succ rfl ?_
    refine (parts.later (skipper, true) here (.skipper among) ordered fun _ =>
      .skipper among).bind fun result builds => ?_
    cases result with
    | none => exact .pure ⟨.refl here, .inl⟩
    | some found =>
      have further := (builds found rfl).precedes
      dsimp only
      split
      · exact .pure ⟨.refl here, .inl⟩
      next moved =>
        have onward := further.offset_lt_of_not_same moved
        -- It is tried again only where less of the text is left.
        have less := further.remaining_lt onward
        refine (ih _ (left ▸ less) parts.later (ordered.trans further) true rfl).mono ?_
        rintro reached ⟨later, _⟩
        exact ⟨further.trans later, fun _ => .inr (Nat.lt_of_lt_of_le onward later.offset_le)⟩

theorem skipEach_halts {skippers : List Expr} (among : skippers ⊆ env.skippers)
    (parts : PartsHalt env run (.ignored, false) start) {here : Position}
    (ordered : start.Precedes here) (progress : Bool) :
    Halts (fun fuel => skipEach (run fuel) fuel skippers here progress) fun reached =>
      here.Precedes reached.1 ∧
        (reached.2 = true → progress = true ∨ here.offset < reached.1.offset) := by
  induction skippers generalizing here progress with
  | nil => exact .pure ⟨.refl here, .inl⟩
  | cons skipper rest ih =>
    rw [List.cons_subset] at among
    refine (skipOne_halts among.1 parts ordered progress).bind fun reached skipped => ?_
    obtain ⟨further, moved⟩ := skipped
    refine (ih among.2 (ordered.trans further) reached.2).mono ?_
    rintro last ⟨later, onward⟩
    refine ⟨further.trans later, fun again => ?_⟩
    have least := further.offset_le
    have most := later.offset_le
    rcases onward again with before | onward
    · exact (moved before).imp_right (Nat.lt_of_lt_of_le · most)
    · exact .inr (Nat.lt_of_le_of_lt least onward)

theorem skipAll_halts (parts : PartsHalt env run (.ignored, false) start) {here : Position}
    (ordered : start.Precedes here) :
    Halts (fun fuel => skipAll (run fuel) env.skippers fuel here) fun _ => True := by
  induction left : here.remaining using Nat.strongRecOn generalizing run here with
  | ind left ih =>
    refine .of_succ rfl ?_
    have round := skipEach_halts (List.Subset.refl env.skippers) parts.later ordered false
    refine round.bind fun reached skipped => ?_
    obtain ⟨there, progress⟩ := reached
    obtain ⟨further, moved⟩ := skipped
    cases progress with
    | false => exact .pure trivial
    | true =>
      -- Another round is only started if one of the skippers went on in this one.
      have less := further.remaining_lt ((moved rfl).resolve_left nofun)
      exact ih _ (left ▸ less) parts.later (ordered.trans further) rfl

theorem ignored_halts {atomic : Bool} (parts : PartsHalt env run (.ignored, atomic) start) :
    Halts (fun fuel => ignored env (run fuel) fuel start atomic) fun _ => True := by
  unfold ignored
  split
  · exact .pure trivial
  next runs =>
    obtain ⟨rfl, _⟩ := Bool.or_eq_false_iff.mp (Bool.eq_false_iff.mpr runs)
    exact ((skipAll_halts parts (.refl start)).within .muted).bind fun _ _ => .pure trivial

theorem pair_halts {body : Expr} {atomic : Bool}
    (parts : PartsHalt env run (.pair body, atomic) start) :
    Halts (fun fuel => pair (run fuel) body start atomic) fun _ => True := by
  refine (parts (body, atomic) start .pair (.refl start) fun _ => .pair).bind
    fun result builds => ?_
  cases result with
  | none => exact .pure trivial
  | some first =>
    refine (parts (body, atomic) first.stop .pair (builds first rfl).precedes fun _ => .pair).bind
      fun result _ => ?_
    cases result with
    | none => exact .pure trivial
    | some second => exact halts_of_ends (Clause.answer_ends start second.stop _)

end Loops

/-! ### Expressions -/

/-- An expression halts if what it asks for does. -/
theorem eval_halts_of_parts {env : Env} (expr : Expr) (atomic : Bool) (start : Position)
    (bounded : env.repeatLimit ≠ none ∨
      ∀ body min, expr = .rep body min none → ¬PossiblyEmpty env body)
    (parts : PartsHalt env (eval env) (expr, atomic) start) :
    Halts (fun fuel => eval env fuel expr start atomic) (Builds env expr atomic start) := by
  suffices halts : Halts (fun fuel => eval env (fuel + 1) expr start atomic) fun _ => True from
    (Halts.of_succ rfl halts).strengthen .of_eval
  -- A single part is asked for at the start, by a left call.
  have part {body : Expr} {inner : Bool} (left : LeftCalls env (expr, atomic) (body, inner)) :
      Halts (fun fuel => eval env fuel body start inner) (Builds env body inner start) :=
    parts (body, inner) start left.calls (.refl start) fun _ => left
  have snapshot : Halts (fun _ => Action.snapshot) fun _ => True :=
    halts_of_ends (.modify fun _ _ => trivial)
  cases expr with
  | terminal leaf =>
    have fulfils : Fulfils (.matching True fun _ => True) (leaf.attempt start)
        (LeafAt leaf.mayBeEmpty start) := leaf.attempt_fulfils start
    exact (Halts.of_fulfils fulfils trivial fun _ _ _ => trivial).mono fun _ _ => trivial
  | seq first rest =>
    exact items_halts parts (List.nil_append _).symm rfl (.refl start) fun _ => nofun
  | choice first rest => exact alternatives_halts parts (List.Subset.refl _) 0
  | opt body =>
    exact snapshot.bind fun _ _ => (part .opt).bind fun result _ =>
      halts_of_ends (Clause.opt_ends start result)
  | rep body min max =>
    have finite : env.repeatLimit ≠ none ∨ max ≠ none ∨ ¬PossiblyEmpty env body := by
      refine bounded.imp_right fun full => ?_
      cases max with
      | none => exact .inr (full body min rfl)
      | some most => exact .inl nofun
    obtain ⟨rounds, runs⟩ := exists_runs atomic finite
    exact repetition_halts runs parts (.refl start) nofun
  | positive body =>
    exact snapshot.bind fun _ _ => ((part .positive).within (.lookahead .positive)).bind
      fun result _ => halts_of_ends (Clause.positive_ends env body start result)
  | negative body =>
    exact snapshot.bind fun _ _ => ((part .negative).within (.lookahead .negative)).bind
      fun result _ => halts_of_ends (Clause.negative_ends env body start result)
  | restorable body =>
    exact snapshot.bind fun _ _ => (part .restorable).bind fun result _ =>
      halts_of_ends (Clause.restorable_ends result)
  | push body =>
    exact (part .push).bind fun result _ => halts_of_ends (Clause.push_ends start result)
  | rule tag name kind body =>
    have entered : Halts (fun _ => Action.emit env (.entered name start.offset)) fun _ => True :=
      halts_of_ends (.emit env _)
    exact entered.bind fun _ _ => ((part .rule).withinAny (Clause.ruleScope name kind)).bind
      fun result _ => halts_of_ends (Clause.rule_ends env name kind start result)
  | ref name =>
    have target := halts_of_ends (.lookupRule env name trivial)
    exact target.bind fun target defined => (part (.ref defined)).mono fun _ _ => trivial
  | lazy cell =>
    have target := halts_of_ends (.force env cell fun _ => trivial)
    exact target.bind fun target resolved => (part (.lazy resolved)).mono fun _ _ => trivial
  | ignored => exact ignored_halts parts
  | pair body => exact pair_halts parts
  | abstract => exact halts_of_ends (.fail trivial)

/-- Without left recursion every expression that a parse may come to halts. -/
theorem eval_halts {env : Env} {root : Expr}
    (acyclic : ∀ config, Entered env root config → ¬Relation.TransGen (LeftCalls env) config config)
    (bounded : env.repeatLimit ≠ none ∨ ∀ body min atomic,
      Entered env root (.rep body min none, atomic) → ¬PossiblyEmpty env body)
    {config : Expr × Bool} (entered : Entered env root config) (start : Position) :
    Halts (fun fuel => eval env fuel config.1 start config.2)
      (Builds env config.1 config.2 start) := by
  induction left : start.remaining using Nat.strongRecOn generalizing config start with
  | ind left later =>
    -- Where the expression stands, the parts that it may ask for come after it in a chain.
    induction acc_leftCalls acyclic entered with
    | intro config _ sooner =>
      obtain ⟨expr, atomic⟩ := config
      refine eval_halts_of_parts expr atomic start (bounded.imp_right ?_) ?_
      · rintro full body min rfl
        exact full body min atomic entered
      · intro part there calls ordered leftCalls
        have reached := entered.calls calls
        by_cases same : there.offset = start.offset
        · rw [Position.eq_of_offset ordered.input_eq same]
          exact sooner part (leftCalls same) reached
        · have further := Nat.lt_of_le_of_ne ordered.offset_le (Ne.symm same)
          exact later _ (left ▸ ordered.remaining_lt further) reached there rfl

end Peg
