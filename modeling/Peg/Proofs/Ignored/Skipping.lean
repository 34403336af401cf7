import Mathlib.Tactic.IntervalCases
import Peg.Proofs.Eval.Reporting
import Peg.Proofs.Ignored.Stackless
import Peg.Proofs.Parse.ShowsAll

/-!
# How far ignored text is skipped

White space and comments are tried in turn. Each of them is tried again as long as it goes on, an
empty match ends its turn as a failure does, and a further round begins if anything was skipped in
the last one. So the rounds end where none of the two goes on, and skipping from there goes nowhere.

This asks of each of them only that it comes to an end itself, whatever was looked up before. It may
match the empty text. What works on the stack is excluded: it could go on where it did not before.

## Main result

Skipping ends behind a row of matches that are not empty, at a place where it stays if it is done
again.
-/
namespace Peg

/-- Matched atomically, the expression comes to an end, but not further than here: it fails, or it
matches the empty text. -/
def Stays (env : Env) (expr : Expr) (here : Position) : Prop :=
  ∀ before, ∃ result after, Finishes env expr here true before result after ∧
    ∀ found, result = some found → found.stop = here

/-- What the second task comes to, the first one comes to, whatever items there are. -/
def Task.Onward (env : Env) (task next : Task) : Prop :=
  ∀ items fate, ComesTo env next items fate → ComesTo env task items fate

theorem Task.Onward.trans {env : Env} {first second third : Task}
    (early : Task.Onward env first second) (late : Task.Onward env second third) :
    Task.Onward env first third :=
  fun items fate comes => early items fate (late items fate comes)

/-- What comes to an end is not broken off for want of a text. -/
theorem Finishes.shows {env : Env} {expr : Expr} {here : Position} {atomic : Bool}
    {before after : State} {result : Option Match}
    (finishes : Finishes env expr here atomic before result after) (fuel : Nat) :
    ¬(run env fuel expr here atomic before).Endless := by
  rintro ⟨left, lost⟩
  obtain ⟨moves, ended⟩ := finishes
  have same := Machine.run_unique (fun endless => nomatch lost.symm.trans endless)
    (fun endless => nomatch ended.symm.trans endless)
  cases lost.symm.trans (same.trans ended)

/-! ### One kind of ignored text -/

section Skipper

variable {env : Env} (free : ∀ skipper ∈ env.skippers, Stackless env skipper) {skipper : Expr}
  {here : Position}

include free

/-- What an expression without the stack comes to in one state, it comes to with any items. -/
theorem Finishes.comesTo {expr : Expr} {atomic : Bool} {before after : State}
    {result : Option Match} (spares : Stackless env expr)
    (finishes : Finishes env expr here atomic before result after) (items : List Span) :
    ComesTo env (.expr expr here atomic) items
      (match result with
        | some found => .matched found.stop items
        | none => .failed items) := by
  obtain ⟨moves, ran⟩ := finishes
  cases result with
  | none =>
    have comes : ComesTo env (.expr expr here atomic) before.stack.items
        (.failed after.stack.items) := comesTo_of_run (by rw [ran]; rfl) rfl
    exact (comes.stackless free spares).2 items
  | some found =>
    have comes : ComesTo env (.expr expr here atomic) before.stack.items
        (.matched found.stop after.stack.items) := comesTo_of_run (by rw [ran]; rfl) rfl
    exact (comes.stackless free spares).2 items

/-- Where all texts end, what comes to an end in one state does so in every other one. -/
theorem Finishes.anywhere (texts : env.definitions.TextsEnd) {expr : Expr} {atomic : Bool}
    {before after : State} {result : Option Match} (spares : Stackless env expr)
    (finishes : Finishes env expr here atomic before result after) (other : State) :
    ∃ result after, Finishes env expr here atomic other result after := by
  have comes := finishes.comesTo free spares other.stack.items
  have shows (fuel : Nat) := Action.ShowsAll.run texts fuel expr here atomic other
  cases result with
  | none =>
    obtain ⟨after, missed⟩ := comes.finishes_none shows
    exact ⟨none, after, missed⟩
  | some found =>
    obtain ⟨also, after, matched, _⟩ := comes.finishes shows
    exact ⟨also, after, matched⟩

variable (among : skipper ∈ env.skippers)

include among

/-- A kind of ignored text that stays leaves the turn to the others. -/
theorem Stays.onward (stays : Stays env skipper here) (rest : List Expr) (progress : Bool) :
    Task.Onward env (.skip (skipper :: rest) here progress) (.skip rest here progress) := by
  intro items fate others
  obtain ⟨result, after, finishes, still⟩ := stays {}
  have comes := finishes.comesTo free (free skipper among) items
  cases result with
  | none => exact .skipNone comes others
  | some found =>
    have same : found.stop.same here = true := by simp [still found rfl, Position.same]
    exact .skipStay comes same others

/-- A kind of ignored text stays, or it goes on and is tried again. -/
theorem stays_or_goes
    (ends : ∀ before, ∃ result after, Finishes env skipper here true before result after) :
    Stays env skipper here ∨ ∃ there, here.Precedes there ∧ here.offset < there.offset ∧
      ∀ rest progress, Task.Onward env (.skip (skipper :: rest) here progress)
        (.skip (skipper :: rest) there true) := by
  obtain ⟨result, after, finishes⟩ := ends {}
  have comes := finishes.comesTo free (free skipper among)
  have shows (before : State) : ∀ fuel, ¬(run env fuel skipper here true before).Endless := by
    obtain ⟨_, _, ended⟩ := ends before
    exact ended.shows
  cases result with
  | none =>
    left
    intro before
    obtain ⟨after, missed⟩ := (comes before.stack.items).finishes_none (shows before)
    exact ⟨none, after, missed, nofun⟩
  | some found =>
    have ordered := finishes.tiled.precedes
    by_cases same : found.stop.same here = true
    · left
      intro before
      obtain ⟨also, after, matched, stop⟩ := (comes before.stack.items).finishes (shows before)
      refine ⟨some also, after, matched, ?_⟩
      rintro _ ⟨⟩
      rw [Position.same, Bool.and_eq_true, beq_iff_eq, beq_iff_eq] at same
      exact stop.trans (Position.eq_of_offset ordered.input_eq same.2)
    · right
      refine ⟨found.stop, ordered, ordered.offset_lt_of_not_same same,
        fun rest progress items fate others => ?_⟩
      exact .skipMore (comes items) (Bool.eq_false_iff.mpr same) others

end Skipper

/-! ### Rounds -/

section Rounds

variable {env : Env} (free : ∀ skipper ∈ env.skippers, Stackless env skipper) {input : Input}
  (ends : ∀ skipper ∈ env.skippers, ∀ here : Position, here.input = input → ∀ before,
    ∃ result after, Finishes env skipper here true before result after)

/-- To have gone on is to be further on, be it in one turn or in two. -/
theorem progress_or_further {here middle there : Position} (early : here.Precedes middle)
    (late : middle.Precedes there) (progress : Bool) :
    (progress || decide (here.offset < middle.offset) || decide (middle.offset < there.offset)) =
      (progress || decide (here.offset < there.offset)) := by
  have first := early.offset_le
  have second := late.offset_le
  have either : here.offset < middle.offset ∨ middle.offset < there.offset ↔
      here.offset < there.offset := by omega
  rw [Bool.or_assoc, ← Bool.decide_or, decide_eq_decide.mpr either]

include free ends

/-- A kind of ignored text is tried until it stays. -/
theorem skips_one {skipper : Expr} (among : skipper ∈ env.skippers) {here : Position}
    (inside : here.input = input) :
    ∃ there, here.Precedes there ∧ Stays env skipper there ∧
      ∀ rest progress, Task.Onward env (.skip (skipper :: rest) here progress)
        (.skip rest there (progress || decide (here.offset < there.offset))) := by
  induction left : here.remaining using Nat.strongRecOn generalizing here with
  | ind left ih =>
    rcases stays_or_goes free among (ends skipper among here inside) with
      stays | ⟨middle, ordered, further, onward⟩
    · refine ⟨here, .refl here, stays, fun rest progress => ?_⟩
      rw [decide_eq_false (Nat.lt_irrefl _), Bool.or_false]
      exact stays.onward free among rest progress
    · -- It is tried again where less of the text is left.
      obtain ⟨there, later, stays, again⟩ := ih _ (left ▸ ordered.remaining_lt further)
        (ordered.input_eq.trans inside) rfl
      refine ⟨there, ordered.trans later, stays, fun rest progress => ?_⟩
      have gone : here.offset < there.offset := Nat.lt_of_lt_of_le further later.offset_le
      rw [decide_eq_true gone, Bool.or_true]
      exact (onward rest progress).trans (again rest true)

/-- Each kind of ignored text has its turn. If none of them went on, all of them stay. -/
theorem skips_each {rest : List Expr} (among : rest ⊆ env.skippers) {here : Position}
    (inside : here.input = input) :
    ∃ there, here.Precedes there ∧ (there = here → ∀ skipper ∈ rest, Stays env skipper here) ∧
      ∀ progress, Task.Onward env (.skip rest here progress)
        (.skip [] there (progress || decide (here.offset < there.offset))) := by
  induction rest generalizing here with
  | nil =>
    refine ⟨here, .refl here, fun _ => List.forall_mem_nil _, fun progress => ?_⟩
    rw [decide_eq_false (Nat.lt_irrefl _), Bool.or_false]
    exact fun _ _ => id
  | cons skipper rest ih =>
    rw [List.cons_subset] at among
    obtain ⟨middle, early, first, turn⟩ := skips_one free ends among.1 inside
    obtain ⟨there, late, others, turns⟩ := ih among.2 (early.input_eq.trans inside)
    refine ⟨there, early.trans late, ?_, fun progress => ?_⟩
    · rintro rfl
      have still : middle = there := Position.eq_of_offset early.input_eq
        (Nat.le_antisymm late.offset_le early.offset_le)
      subst still
      exact List.forall_mem_cons.mpr ⟨first, others rfl⟩
    · rw [← progress_or_further early late]
      exact (turn rest progress).trans (turns _)

/-- Rounds are made until all kinds of ignored text stay. -/
theorem skips_all {here : Position} (inside : here.input = input) :
    ∃ there, (∀ skipper ∈ env.skippers, Stays env skipper there) ∧
      ∀ items, ComesTo env (.skip env.skippers here false) items (.matched there items) := by
  induction left : here.remaining using Nat.strongRecOn generalizing here with
  | ind left ih =>
    obtain ⟨middle, ordered, stay, turns⟩ :=
      skips_each free ends (List.Subset.refl env.skippers) inside
    by_cases further : here.offset < middle.offset
    · obtain ⟨there, stays, rounds⟩ := ih _ (left ▸ ordered.remaining_lt further)
        (ordered.input_eq.trans inside) rfl
      refine ⟨there, stays, fun items => turns false items _ ?_⟩
      rw [decide_eq_true further, Bool.or_true]
      exact .skipAgain (rounds items)
    · have still : middle = here := Position.eq_of_offset ordered.input_eq
        (Nat.le_antisymm (Nat.le_of_not_lt further) ordered.offset_le)
      subst still
      refine ⟨middle, stay rfl, fun items => turns false items _ ?_⟩
      rw [decide_eq_false further, Bool.or_false]
      exact .skipEnd

omit ends

/-- Where all kinds of ignored text stay, a round goes nowhere. -/
theorem skips_none {rest : List Expr} (among : rest ⊆ env.skippers) {here : Position}
    (stay : ∀ skipper ∈ env.skippers, Stays env skipper here) (items : List Span) :
    ComesTo env (.skip rest here false) items (.matched here items) := by
  induction rest with
  | nil => exact .skipEnd
  | cons skipper rest ih =>
    rw [List.cons_subset] at among
    exact (stay skipper among.1).onward free among.1 rest false items _ (ih among.2)

end Rounds

/-! ### Main result -/

/-- If each kind of ignored text comes to an end, no text is wanting where it is skipped. -/
theorem ignored_shows {env : Env} {input : Input}
    (ends : ∀ skipper ∈ env.skippers, ∀ here : Position, here.input = input → ∀ before,
      ∃ result after, Finishes env skipper here true before result after)
    {here : Position} (inside : here.input = input) (fuel : Nat) :
    Action.ShowsAll (run env fuel .ignored here false) := by
  refine Action.ShowsAll.of_eval (fun depth => ?_) fuel
  cases depth with
  | zero => exact .exhausted
  | succ depth =>
    -- The loops keep to the text, so that they only ask for what comes to an end.
    have onward {expr here atomic found} (inside : here.input = input)
        (answers : (eval env depth expr here atomic).Answers (some found)) :
        found.stop.input = input := by
      obtain ⟨state, left, ended⟩ := answers
      exact (precedes_of_eval _ _ _ _ _ ended).input_eq.trans inside
    have parts (skipper : Expr) (among : skipper ∈ env.skippers) (here : Position)
        (inside : here.input = input) : Action.ShowsAll (eval env depth skipper here true) := by
      refine Action.ShowsAll.of_run (fun moves state => ?_) depth
      obtain ⟨result, last, finishes⟩ := ends skipper among here inside state
      exact finishes.shows moves
    exact Action.ShowsAll.composite.ignored onward parts depth inside false

/-- Ignored text has no node. -/
theorem ComesTo.finishes_ignored {env : Env} {here stop : Position} {before : State}
    {items : List Span}
    (comes : ComesTo env (.skip env.skippers here false) before.stack.items (.matched stop items))
    (shows : ∀ fuel, ¬(run env fuel .ignored here false before).Endless) :
    ∃ after, Finishes env .ignored here false before (some ⟨stop, none⟩) after ∧
      Ignorable env here stop := by
  obtain ⟨⟨_, node⟩, after, finishes, rfl⟩ := (ComesTo.ignored comes).finishes shows
  cases finishes.tiled with
  | ignored gap => exact ⟨after, finishes, gap.ignorable⟩

/-- Let white space and comments be such that matching them atomically comes to an end at every
place of the text, whatever the state is, be it with an empty match, and let them not work on the
stack. From every place and in every state, skipping ignored text then comes to an end, behind a row
of matches that are not empty. Neither of the two goes on from there, whatever the state is, and to
skip ignored text again is to stay there. -/
theorem skipping_is_maximal (env : Env)
    (free : ∀ skipper ∈ env.skippers, Stackless env skipper) (start : Position)
    (ends : ∀ skipper ∈ env.skippers, ∀ here : Position, here.input = start.input → ∀ before,
      ∃ result after, Finishes env skipper here true before result after) (before : State) :
    ∃ stop after, Finishes env .ignored start false before (some ⟨stop, none⟩) after ∧
      start.Precedes stop ∧ Ignorable env start stop ∧
      (∀ skipper ∈ env.skippers, Stays env skipper stop) ∧
      ∀ other, ∃ left, Finishes env .ignored stop false other (some ⟨stop, none⟩) left := by
  obtain ⟨stop, stay, skips⟩ := skips_all free ends (rfl : start.input = start.input)
  obtain ⟨after, finishes, skipped⟩ :=
    (skips before.stack.items).finishes_ignored (ignored_shows ends rfl · before)
  refine ⟨stop, after, finishes, skipped.precedes, skipped, stay, fun other => ?_⟩
  have still := skips_none free (List.Subset.refl _) stay other.stack.items
  obtain ⟨left, again, _⟩ :=
    still.finishes_ignored (ignored_shows ends skipped.precedes.input_eq · other)
  exact ⟨left, again⟩

/-- A blank, a mark and another blank in front of a letter. -/
def markedText : Env where
  input := ⟨0, #[' ', '#', ' ', 'a']⟩
  whitespace := some (.opt (.literal " "))
  comment := some (.literal "#")

theorem mem_markedText_skippers {skipper : Expr} (among : skipper ∈ markedText.skippers) :
    skipper = .opt (.literal " ") ∨ skipper = .literal "#" := by
  simpa [markedText, Env.skippers] using among

theorem markedText_stackless (skipper : Expr) (among : skipper ∈ markedText.skippers) :
    Stackless markedText skipper := by
  rcases mem_markedText_skippers among with rfl | rfl
  · refine .of_parts trivial fun part uses => ?_
    cases uses
    exact .terminal rfl
  · exact .terminal rfl

theorem markedText_ends (skipper : Expr) (among : skipper ∈ markedText.skippers)
    (here : Position) (inside : here.input = markedText.input) (before : State) :
    ∃ result after, Finishes markedText skipper here true before result after := by
  obtain ⟨result, after, finishes⟩ :
      ∃ result after, Finishes markedText skipper here true {} result after := by
    obtain ⟨input, offset, within⟩ := here
    subst inside
    have small : offset ≤ 4 := within
    rcases mem_markedText_skippers among with rfl | rfl <;> interval_cases offset <;>
      exact ⟨_, _, 10, rfl⟩
  have spares := markedText_stackless skipper among
  exact finishes.anywhere markedText_stackless Definitions.textsEnd_nil spares before

/-- The comment makes room for white space behind it. The blanks may be missing, and at the letter
both kinds of ignored text stay. -/
theorem marked_text_skipped : ∃ stop : Position, stop.offset = 3 ∧
    (∃ after, Finishes markedText .ignored (.start markedText.input) false {}
      (some ⟨stop, none⟩) after) ∧
    (∀ skipper ∈ markedText.skippers, Stays markedText skipper stop) ∧
    ∀ other, ∃ left, Finishes markedText .ignored stop false other (some ⟨stop, none⟩) left := by
  obtain ⟨stop, after, finishes, _, _, stay, again⟩ := skipping_is_maximal markedText
    markedText_stackless (.start markedText.input) markedText_ends {}
  obtain ⟨same, _⟩ := finishes.unique ⟨60, rfl⟩
  have ended := congrArg Match.stop (Option.some.inj same)
  exact ⟨stop, congrArg Position.offset ended, ⟨after, finishes⟩, stay, again⟩

end Peg
