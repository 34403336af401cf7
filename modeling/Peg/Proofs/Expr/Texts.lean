import Mathlib.Data.Finset.Filter
import Mathlib.Data.Finset.Card
import Mathlib.Order.OrderIsoNat
import Peg.Expr.Definitions

/-!
# Texts of expressions

The text of an expression is made of the texts of its parts, down to the lazy expressions that it
shows. One that was looked up is shown as what it stands for, and what that shows is shown in turn.
Where this goes on for ever there is no text.

The number of lazy expressions that were looked up is depth enough: at each depth, those without a
text are among those of the depth before, and once the two are the same nothing changes any more.

## Main results

* `Expr.text_lazy`: the text of a lazy expression that was looked up is that of what it stands for,
  if any.
* `Expr.text_eq_none_iff`: an expression has no text exactly if it shows a lazy expression from
  which an endless chain of looked up ones starts, each shown in what the one before stands for.
-/

namespace Peg

namespace Expr

/-! ### What a text shows -/

mutual

/-- The lazy expressions that the text of an expression shows. What is inside a rule is not
shown. -/
def shownCells : Expr → List LazyCell
  | seq first rest => first.shownCells ++ shownCellsOf rest
  | choice first rest => first.shownCells ++ shownCellsOf rest
  | opt body => body.shownCells
  | rep body _ _ => body.shownCells
  | positive body => body.shownCells
  | negative body => body.shownCells
  | restorable body => body.shownCells
  | push body => body.shownCells
  | lazy cell => [cell]
  | terminal _ => []
  | rule .. => []
  | ref _ => []
  | ignored => []
  | pair _ => []
  | abstract => []

/-- The lazy expressions that the texts of several expressions show. -/
def shownCellsOf : List Expr → List LazyCell
  | [] => []
  | expr :: rest => expr.shownCells ++ shownCellsOf rest

end

theorem shownCellsOf_eq_nil {exprs : List Expr} (plain : ∀ expr ∈ exprs, expr.shownCells = []) :
    shownCellsOf exprs = [] := by
  induction exprs with
  | nil => rfl
  | cons expr rest ih =>
    rw [List.forall_mem_cons] at plain
    rw [shownCellsOf, plain.1, ih plain.2, List.append_nil]

theorem bind_return_eq_none_iff {α β γ : Type} (first : Option α) (second : Option β)
    (f : α → β → γ) :
    (do let a ← first; return f a (← second)) = none ↔ first = none ∨ second = none := by
  cases first <;> cases second <;> simp

mutual

/-- An expression lacks a text exactly if a lazy one that it shows does. -/
theorem textWith_eq_none_iff (lazyText : LazyCell → Option String) :
    ∀ expr : Expr, expr.textWith lazyText = none ↔ ∃ cell ∈ expr.shownCells, lazyText cell = none
  | seq first rest => by
    rw [textWith, bind_return_eq_none_iff, textWith_eq_none_iff lazyText first,
      operandsWith_eq_none_iff lazyText rest]
    simp only [shownCells, List.mem_append, or_and_right, exists_or]
  | choice first rest => by
    rw [textWith, bind_return_eq_none_iff, textWith_eq_none_iff lazyText first,
      operandsWith_eq_none_iff lazyText rest]
    simp only [shownCells, List.mem_append, or_and_right, exists_or]
  | opt body => by simp [textWith, shownCells, textWith_eq_none_iff lazyText body]
  | rep body _ _ => by simp [textWith, shownCells, textWith_eq_none_iff lazyText body]
  | positive body => by simp [textWith, shownCells, textWith_eq_none_iff lazyText body]
  | negative body => by simp [textWith, shownCells, textWith_eq_none_iff lazyText body]
  | restorable body => by simp [textWith, shownCells, textWith_eq_none_iff lazyText body]
  | push body => by simp [textWith, shownCells, textWith_eq_none_iff lazyText body]
  | lazy cell => by simp [textWith, shownCells]
  | terminal _ | rule .. | ref _ | ignored | pair _ | abstract => by simp [textWith, shownCells]

theorem operandsWith_eq_none_iff (lazyText : LazyCell → Option String) :
    ∀ exprs : List Expr, operandsWith lazyText exprs = none ↔
      ∃ cell ∈ shownCellsOf exprs, lazyText cell = none
  | [] => by simp [operandsWith, shownCellsOf]
  | expr :: rest => by
    rw [operandsWith, bind_return_eq_none_iff, textWith_eq_none_iff lazyText expr,
      operandsWith_eq_none_iff lazyText rest]
    simp only [shownCellsOf, List.mem_append, or_and_right, exists_or]

end

mutual

/-- The text of an expression depends on those of the lazy ones that it shows only. -/
theorem textWith_congr {lazyText other : LazyCell → Option String} :
    ∀ expr : Expr, (∀ cell ∈ expr.shownCells, lazyText cell = other cell) →
      expr.textWith lazyText = expr.textWith other
  | seq first rest, same => by
    simp only [shownCells, List.mem_append, or_imp, forall_and] at same
    rw [textWith, textWith, textWith_congr first same.1, operandsWith_congr rest same.2]
  | choice first rest, same => by
    simp only [shownCells, List.mem_append, or_imp, forall_and] at same
    rw [textWith, textWith, textWith_congr first same.1, operandsWith_congr rest same.2]
  | opt body, same => by rw [textWith, textWith, textWith_congr body same]
  | rep body _ _, same => by rw [textWith, textWith, textWith_congr body same]
  | positive body, same => by rw [textWith, textWith, textWith_congr body same]
  | negative body, same => by rw [textWith, textWith, textWith_congr body same]
  | restorable body, same => by rw [textWith, textWith, textWith_congr body same]
  | push body, same => by rw [textWith, textWith, textWith_congr body same]
  | lazy cell, same => same cell (List.mem_singleton_self cell)
  | terminal _, _ | rule .., _ | ref _, _ | ignored, _ | pair _, _ | abstract, _ => rfl

theorem operandsWith_congr {lazyText other : LazyCell → Option String} :
    ∀ exprs : List Expr, (∀ cell ∈ shownCellsOf exprs, lazyText cell = other cell) →
      operandsWith lazyText exprs = operandsWith other exprs
  | [], _ => rfl
  | expr :: rest, same => by
    simp only [shownCellsOf, List.mem_append, or_imp, forall_and] at same
    rw [operandsWith, operandsWith, textWith_congr expr same.1, operandsWith_congr rest same.2]

end

end Expr

/-! ### Depth enough -/

namespace Definitions

variable {definitions : Definitions} {forced : List LazyCell}

theorem shown?_eq_some_iff {cell : LazyCell} {target : Expr} :
    definitions.shown? forced cell = some target ↔
      cell ∈ forced ∧ definitions.lookup cell.definition = some (.ok target) := by
  rw [shown?, resolve]
  split
  · next looked =>
    cases definitions.lookup cell.definition with
    | none => simp [Except.toOption]
    | some result => cases result <;> simp [Except.toOption, looked]
  · next absent => simp [absent]

theorem lazyText_of_shown?_eq_none {cell : LazyCell} (depth : Nat)
    (hidden : definitions.shown? forced cell = none) :
    definitions.lazyText forced depth cell = some "Lazy" := by
  cases depth <;> simp [lazyText, hidden]

theorem lazyText_succ_of_shown? {cell : LazyCell} {target : Expr} (depth : Nat)
    (shown : definitions.shown? forced cell = some target) :
    definitions.lazyText forced (depth + 1) cell =
      target.textWith (definitions.lazyText forced depth) := by
  simp [lazyText, shown]

/-- A text that is found at some depth is found at the next one. -/
theorem lazyText_succ {depth : Nat} {cell : LazyCell} {text : String}
    (found : definitions.lazyText forced depth cell = some text) :
    definitions.lazyText forced (depth + 1) cell = some text := by
  induction depth generalizing cell text with
  | zero =>
    cases shown : definitions.shown? forced cell with
    | none => rw [lazyText_of_shown?_eq_none _ shown] at found ⊢; exact found
    | some target => simp [lazyText, shown] at found
  | succ depth ih =>
    cases shown : definitions.shown? forced cell with
    | none => rw [lazyText_of_shown?_eq_none _ shown] at found ⊢; exact found
    | some target =>
      rw [lazyText_succ_of_shown? _ shown] at found ⊢
      rw [← found]
      refine (Expr.textWith_congr target fun inner shownInner => ?_).symm
      cases foundInner : definitions.lazyText forced depth inner with
      | some text => exact (ih foundInner).symm
      | none =>
        have lost := (Expr.textWith_eq_none_iff _ target).mpr ⟨inner, shownInner, foundInner⟩
        rw [lost] at found
        cases found

/-- The lazy expressions without a text at some depth. -/
def unfinished (definitions : Definitions) (forced : List LazyCell) (depth : Nat) :
    Finset LazyCell :=
  forced.toFinset.filter fun cell => definitions.lazyText forced depth cell = none

theorem mem_unfinished {depth : Nat} {cell : LazyCell} :
    cell ∈ definitions.unfinished forced depth ↔
      definitions.lazyText forced depth cell = none := by
  simp only [unfinished, Finset.mem_filter, List.mem_toFinset, and_iff_right_iff_imp]
  intro lost
  cases shown : definitions.shown? forced cell with
  | some target => exact (shown?_eq_some_iff.mp shown).1
  | none => rw [lazyText_of_shown?_eq_none _ shown] at lost; cases lost

theorem unfinished_succ_subset (depth : Nat) :
    definitions.unfinished forced (depth + 1) ⊆ definitions.unfinished forced depth := by
  intro cell lost
  rw [mem_unfinished] at lost ⊢
  cases found : definitions.lazyText forced depth cell with
  | none => rfl
  | some text => rw [lazyText_succ found] at lost; cases lost

/-- Once the next depth leaves no fewer without a text, it changes no text at all. -/
theorem lazyText_succ_eq {depth : Nat}
    (same : definitions.unfinished forced (depth + 1) = definitions.unfinished forced depth) :
    definitions.lazyText forced (depth + 1) = definitions.lazyText forced depth := by
  funext cell
  cases found : definitions.lazyText forced depth cell with
  | some text => exact lazyText_succ found
  | none => exact mem_unfinished.mp (same ▸ mem_unfinished.mpr found)

theorem lazyText_succ_succ_eq {depth : Nat}
    (same : definitions.lazyText forced (depth + 1) = definitions.lazyText forced depth) :
    definitions.lazyText forced (depth + 2) = definitions.lazyText forced (depth + 1) := by
  funext cell
  cases shown : definitions.shown? forced cell with
  | none => simp only [lazyText_of_shown?_eq_none _ shown]
  | some target => simp only [lazyText_succ_of_shown? _ shown, same]

/-- Depth by depth, either nothing changes any more or ever fewer are without a text. -/
theorem lazyText_settles (depth : Nat) :
    definitions.lazyText forced (depth + 1) = definitions.lazyText forced depth ∨
      (definitions.unfinished forced (depth + 1)).card + (depth + 1) ≤ forced.length := by
  have step (depth : Nat) :
      definitions.lazyText forced (depth + 1) = definitions.lazyText forced depth ∨
        (definitions.unfinished forced (depth + 1)).card <
          (definitions.unfinished forced depth).card := by
    have fewer : definitions.unfinished forced (depth + 1) ⊆
        definitions.unfinished forced depth := unfinished_succ_subset depth
    obtain same | smaller := fewer.eq_or_ssubset
    · exact .inl (lazyText_succ_eq same)
    · exact .inr (Finset.card_lt_card smaller)
  induction depth with
  | zero =>
    refine (step 0).imp_right fun smaller => ?_
    have bound : (definitions.unfinished forced 0).card ≤ forced.length :=
      (Finset.card_filter_le _ _).trans (List.toFinset_card_le forced)
    omega
  | succ depth ih =>
    obtain same | bound := ih
    · exact .inl (lazyText_succ_succ_eq same)
    · exact (step (depth + 1)).imp_right fun smaller => by omega

/-- Beyond the number of the lazy expressions that were looked up, depth changes nothing. -/
theorem lazyText_length_succ :
    definitions.lazyText forced (forced.length + 1) =
      definitions.lazyText forced forced.length :=
  (lazyText_settles forced.length).resolve_right (by omega)

end Definitions

/-! ### Texts without end -/

variable {definitions : Definitions} {forced : List LazyCell}

/-- The text of a lazy expression is a fixed word until it is looked up, and then the text of what
it stands for. -/
theorem Expr.text_lazy (definitions : Definitions) (forced : List LazyCell) (cell : LazyCell) :
    (Expr.lazy cell).text definitions forced =
      match definitions.shown? forced cell with
      | some target => target.text definitions forced
      | none => some "Lazy" := by
  rw [text, textWith, ← Definitions.lazyText_length_succ]
  cases shown : definitions.shown? forced cell with
  | none => exact Definitions.lazyText_of_shown?_eq_none _ shown
  | some target => exact Definitions.lazyText_succ_of_shown? _ shown

/-- A lazy expression whose text would have no end: an endless chain starts from it of lazy
expressions that were looked up, each shown in what the one before stands for. -/
def LazyCell.Endless (definitions : Definitions) (forced : List LazyCell) (cell : LazyCell) :
    Prop :=
  ∃ chain : Nat → LazyCell, chain 0 = cell ∧ ∀ n, ∃ target,
    definitions.shown? forced (chain n) = some target ∧ chain (n + 1) ∈ target.shownCells

theorem LazyCell.Endless.lazyText_eq_none {cell : LazyCell}
    (endless : cell.Endless definitions forced) (depth : Nat) :
    definitions.lazyText forced depth cell = none := by
  obtain ⟨chain, rfl, next⟩ := endless
  have all : ∀ n, definitions.lazyText forced depth (chain n) = none := by
    induction depth with
    | zero =>
      intro n
      obtain ⟨target, shown, -⟩ := next n
      simp [Definitions.lazyText, shown]
    | succ depth ih =>
      intro n
      obtain ⟨target, shown, inside⟩ := next n
      rw [Definitions.lazyText_succ_of_shown? _ shown, Expr.textWith_eq_none_iff]
      exact ⟨chain (n + 1), inside, ih (n + 1)⟩
  exact all 0

/-- Where a lazy expression has no text, neither has one that is shown in what it stands for. -/
theorem LazyCell.exists_shown_of_text_eq_none {cell : LazyCell}
    (lost : (Expr.lazy cell).text definitions forced = none) :
    ∃ target, definitions.shown? forced cell = some target ∧
      ∃ inner ∈ target.shownCells, (Expr.lazy inner).text definitions forced = none := by
  rw [Expr.text_lazy] at lost
  cases shown : definitions.shown? forced cell with
  | none => simp [shown] at lost
  | some target =>
    simp only [shown] at lost
    exact ⟨target, rfl, (Expr.textWith_eq_none_iff _ target).mp lost⟩

theorem LazyCell.endless_of_text_eq_none {cell : LazyCell}
    (lost : (Expr.lazy cell).text definitions forced = none) :
    cell.Endless definitions forced := by
  choose! target shown next inside lostNext using
    fun (cell : LazyCell) (lost : (Expr.lazy cell).text definitions forced = none) =>
      exists_shown_of_text_eq_none lost
  have lostAll : ∀ n, (Expr.lazy (next^[n] cell)).text definitions forced = none := by
    intro n
    induction n with
    | zero => exact lost
    | succ n ih => rw [Function.iterate_succ_apply']; exact lostNext _ ih
  refine ⟨fun n => next^[n] cell, rfl, fun n => ⟨target _ (lostAll n), shown _ (lostAll n), ?_⟩⟩
  simp only [Function.iterate_succ_apply']
  exact inside _ (lostAll n)

/-- An expression has no text exactly if a lazy one that it shows has none. -/
theorem Expr.text_eq_none_iff {expr : Expr} :
    expr.text definitions forced = none ↔
      ∃ cell ∈ expr.shownCells, cell.Endless definitions forced := by
  refine (textWith_eq_none_iff _ expr).trans (exists_congr fun cell => and_congr_right fun _ => ?_)
  exact ⟨LazyCell.endless_of_text_eq_none, fun endless => endless.lazyText_eq_none _⟩

/-- With more lazy expressions looked up, an expression without a text still has none. -/
theorem Expr.text_eq_none_of_subset {others : List LazyCell} {expr : Expr}
    (more : forced ⊆ others) (lost : expr.text definitions forced = none) :
    expr.text definitions others = none := by
  obtain ⟨cell, shownCell, chain, start, next⟩ := text_eq_none_iff.mp lost
  refine text_eq_none_iff.mpr ⟨cell, shownCell, chain, start, fun n => ?_⟩
  obtain ⟨target, shown, inside⟩ := next n
  obtain ⟨looked, found⟩ := Definitions.shown?_eq_some_iff.mp shown
  exact ⟨target, Definitions.shown?_eq_some_iff.mpr ⟨more looked, found⟩, inside⟩

/-! ### Texts that end -/

/-- An expression that shows no lazy one has a text. -/
theorem Expr.text_ne_none_of_shownCells {expr : Expr} (plain : expr.shownCells = []) :
    expr.text definitions forced ≠ none := by
  intro lost
  obtain ⟨cell, shownCell, -⟩ := text_eq_none_iff.mp lost
  simp [plain] at shownCell

theorem Expr.exists_text (definitions : Definitions) (forced : List LazyCell) {expr : Expr}
    (plain : expr.shownCells = []) : ∃ text, expr.text definitions forced = some text :=
  Option.ne_none_iff_exists'.mp (text_ne_none_of_shownCells plain)

/-- Every expression has a text, whatever was looked up. -/
def Definitions.TextsEnd (definitions : Definitions) : Prop :=
  ∀ (forced : List LazyCell) (expr : Expr), expr.text definitions forced ≠ none

/-- Texts end where each definition shows definitions of a lower rank only. -/
theorem Definitions.TextsEnd.of_rank (rank : String → Nat)
    (lower : ∀ name target, definitions.lookup name = some (.ok target) →
      ∀ cell ∈ target.shownCells, rank cell.definition < rank name) : definitions.TextsEnd := by
  intro forced expr lost
  obtain ⟨_, -, chain, -, next⟩ := Expr.text_eq_none_iff.mp lost
  have falls (n : Nat) : rank (chain (n + 1)).definition < rank (chain n).definition := by
    obtain ⟨target, shown, inside⟩ := next n
    exact lower _ target (shown?_eq_some_iff.mp shown).2 _ inside
  exact not_strictAnti_of_wellFoundedLT (fun n => rank (chain n).definition)
    (strictAnti_nat_of_succ_lt falls)

theorem Definitions.textsEnd_nil : TextsEnd [] := .of_rank (fun _ => 0) nofun

end Peg
