import Peg.Proofs.Equivalence.Fates
import Peg.Proofs.Tree.Spans

/-!
# Expressions that come to the same fates

Some expressions can be written in another way: a sequence in a sequence or a choice in a choice can
be flattened, an optional part is a choice with the empty text, a positive lookahead is a negative
one of a negative one, and what is taken back already need not be taken back once more.

That a sequence in a sequence may be flattened depends on where ignored text is skipped. It is
skipped in front of the inner sequence as it would be in front of its first item, and not again in
front of that item.
-/
namespace Peg

/-- What one expression comes to, the other one comes to as well. -/
def Refines (env : Env) (expr other : Expr) : Prop :=
  ∀ {here : Position} {atomic : Bool} {items : List Span} {fate : Fate},
    ComesTo env (.expr expr here atomic) items fate →
      ComesTo env (.expr other here atomic) items fate

/-- The expressions come to the same fates. -/
structure Equivalent (env : Env) (expr other : Expr) : Prop where
  onward : Refines env expr other
  back : Refines env other expr

namespace Equivalent

variable {env : Env} {first second third : Expr}

theorem refl (env : Env) (expr : Expr) : Equivalent env expr expr := ⟨id, id⟩

theorem symm (same : Equivalent env first second) : Equivalent env second first :=
  ⟨same.back, same.onward⟩

theorem trans (early : Equivalent env first second) (late : Equivalent env second third) :
    Equivalent env first third :=
  ⟨fun comes => late.onward (early.onward comes), fun comes => early.back (late.back comes)⟩

/-- A context in which refinement is kept keeps equivalence. -/
theorem context {context : Expr → Expr}
    (kept : ∀ {expr other}, Refines env expr other → Refines env (context expr) (context other))
    (same : Equivalent env first second) : Equivalent env (context first) (context second) :=
  ⟨kept same.onward, kept same.back⟩

end Equivalent

/-! ### Items of sequences -/

section Items

variable {env : Env} {expr : Expr} {early late rest : List Expr} {here : Position}
  {fresh atomic : Bool} {items : List Span} {fate : Fate}

/-- Some items are followed by others if they match. -/
theorem ComesTo.items_append : ComesTo env (.items (early ++ late) here fresh atomic) items fate ↔
    (ComesTo env (.items early here fresh atomic) items fate ∧ fate.matches? = false) ∨
      ∃ stop middle, ComesTo env (.items early here fresh atomic) items (.matched stop middle) ∧
        ComesTo env (.items late stop (fresh && early.isEmpty) atomic) middle fate := by
  induction early generalizing here fresh items with
  | nil =>
    rw [List.isEmpty_nil, Bool.and_true]
    constructor
    · exact fun comes => .inr ⟨here, items, .itemsEnd, comes⟩
    · rintro (⟨comes, stopped⟩ | ⟨stop, middle, comes, others⟩)
      · cases comes
        cases stopped
      · cases comes
        exact others
  | cons expr early ih =>
    constructor
    · intro comes
      cases comes with
      | itemsGap gap stopped => exact .inl ⟨.itemsGap gap stopped, stopped⟩
      | itemsStop gap part stopped => exact .inl ⟨.itemsStop gap part stopped, stopped⟩
      | itemsMore gap part others =>
        rcases ih.mp others with ⟨inner, stopped⟩ | ⟨stop, middle, inner, others⟩
        · exact .inl ⟨.itemsMore gap part inner, stopped⟩
        · exact .inr ⟨stop, middle, .itemsMore gap part inner, by simpa using others⟩
    · rintro (⟨comes, stopped⟩ | ⟨stop, middle, comes, others⟩)
      · cases comes with
        | itemsGap gap stopped => exact .itemsGap gap stopped
        | itemsStop gap part stopped => exact .itemsStop gap part stopped
        | itemsMore gap part inner => exact .itemsMore gap part (ih.mpr (.inl ⟨inner, stopped⟩))
      · cases comes with
        | itemsGap _ stopped | itemsStop _ _ stopped => cases stopped
        | itemsMore gap part inner =>
          exact .itemsMore gap part (ih.mpr (.inr ⟨stop, middle, inner, by simpa using others⟩))

/-- Ignored text comes first, and then the items as if they were all. -/
theorem ComesTo.items_cons : ComesTo env (.items (expr :: rest) here fresh atomic) items fate ↔
    (ComesTo env (.gap (fresh || atomic) here) items fate ∧ fate.matches? = false) ∨
      ∃ there between,
        ComesTo env (.gap (fresh || atomic) here) items (.matched there between) ∧
          ComesTo env (.items (expr :: rest) there true atomic) between fate := by
  constructor
  · intro comes
    cases comes with
    | itemsGap gap stopped => exact .inl ⟨gap, stopped⟩
    | itemsStop gap part stopped => exact .inr ⟨_, _, gap, .itemsStop .gapNone part stopped⟩
    | itemsMore gap part others => exact .inr ⟨_, _, gap, .itemsMore .gapNone part others⟩
  · rintro (⟨gap, stopped⟩ | ⟨there, between, gap, comes⟩)
    · exact .itemsGap gap stopped
    · cases comes with
      | itemsGap none stopped =>
        cases none
        cases stopped
      | itemsStop none part stopped =>
        cases none
        exact .itemsStop gap part stopped
      | itemsMore none part others =>
        cases none
        exact .itemsMore gap part others

theorem ComesTo.items_singleton : ComesTo env (.items [expr] here true atomic) items fate ↔
    ComesTo env (.expr expr here atomic) items fate := by
  constructor
  · intro comes
    cases comes with
    | itemsGap none stopped =>
      cases none
      cases stopped
    | itemsStop none part _ =>
      cases none
      exact part
    | itemsMore none part others =>
      cases none
      cases others
      exact part
  · intro part
    cases fate with
    | matched stop after => exact .itemsMore .gapNone part .itemsEnd
    | failed | broken => exact .itemsStop .gapNone part rfl

end Items

/-- What one row of items comes to, the other one comes to as well. -/
structure RowRefines (env : Env) (row other : List Expr) : Prop where
  empty : row = [] ↔ other = []
  comes : ∀ {here : Position} {fresh atomic : Bool} {items : List Span} {fate : Fate},
    ComesTo env (.items row here fresh atomic) items fate →
      ComesTo env (.items other here fresh atomic) items fate

namespace RowRefines

variable {env : Env} {row other early late : List Expr}

theorem refl (env : Env) (row : List Expr) : RowRefines env row row := ⟨.rfl, id⟩

/-- Rows that are not empty need to be compared only as if they were all. -/
theorem of_fresh {first second : Expr} {rest others : List Expr}
    (comes : ∀ {here atomic items fate}, ComesTo env (.items (first :: rest) here true atomic) items
      fate → ComesTo env (.items (second :: others) here true atomic) items fate) :
    RowRefines env (first :: rest) (second :: others) := by
  refine ⟨⟨nofun, nofun⟩, fun row => ComesTo.items_cons.mpr ?_⟩
  rcases ComesTo.items_cons.mp row with stopped | ⟨there, between, gap, inner⟩
  · exact .inl stopped
  · exact .inr ⟨there, between, gap, comes inner⟩

theorem append (first : RowRefines env row other) (second : RowRefines env early late) :
    RowRefines env (row ++ early) (other ++ late) := by
  refine ⟨by rw [List.append_eq_nil_iff, List.append_eq_nil_iff, first.empty, second.empty],
    fun comes => ComesTo.items_append.mpr ?_⟩
  have empty : row.isEmpty = other.isEmpty := by
    rw [Bool.eq_iff_iff, List.isEmpty_iff, List.isEmpty_iff, first.empty]
  rcases ComesTo.items_append.mp comes with ⟨inner, stopped⟩ | ⟨stop, middle, inner, others⟩
  · exact .inl ⟨first.comes inner, stopped⟩
  · exact .inr ⟨stop, middle, first.comes inner, second.comes (empty ▸ others)⟩

/-- One item in a row is replaced. -/
theorem replace (inner : RowRefines env row other) (early late : List Expr) :
    RowRefines env (early ++ (row ++ late)) (early ++ (other ++ late)) :=
  (refl env early).append (inner.append (refl env late))

theorem single {expr changed : Expr} (refines : Refines env expr changed) :
    RowRefines env [expr] [changed] :=
  of_fresh fun comes => ComesTo.items_singleton.mpr (refines (ComesTo.items_singleton.mp comes))

/-- A sequence stands in a row as its items would. -/
theorem flatten (env : Env) (first : Expr) (rest : List Expr) :
    RowRefines env [.seq first rest] (first :: rest) := by
  refine of_fresh fun comes => ?_
  cases ComesTo.items_singleton.mp comes with
  | seq inner => exact inner

theorem unflatten (env : Env) (first : Expr) (rest : List Expr) :
    RowRefines env (first :: rest) [.seq first rest] :=
  of_fresh fun comes => ComesTo.items_singleton.mpr (.seq comes)

theorem seq {first second : Expr} {rest others : List Expr}
    (refines : RowRefines env (first :: rest) (second :: others)) :
    Refines env (.seq first rest) (.seq second others) := by
  intro here atomic items fate comes
  cases comes with
  | seq inner => exact .seq (refines.comes inner)

end RowRefines

/-! ### Alternatives of choices -/

/-- Other alternatives are tried if some fail. -/
theorem ComesTo.alternatives_append {env : Env} {early late : List Expr} {here : Position}
    {atomic : Bool} {items : List Span} {fate : Fate} :
    ComesTo env (.alternatives (early ++ late) here atomic) items fate ↔
      (ComesTo env (.alternatives early here atomic) items fate ∧ fate.fails = false) ∨
        ∃ middle, ComesTo env (.alternatives early here atomic) items (.failed middle) ∧
          ComesTo env (.alternatives late here atomic) middle fate := by
  induction early generalizing items with
  | nil =>
    constructor
    · exact fun comes => .inr ⟨items, .alternativesEnd, comes⟩
    · rintro (⟨comes, found⟩ | ⟨middle, comes, others⟩)
      · cases comes
        cases found
      · cases comes
        exact others
  | cons expr early ih =>
    constructor
    · intro comes
      cases comes with
      | alternativesFound part found => exact .inl ⟨.alternativesFound part found, found⟩
      | alternativesMore part others =>
        rcases ih.mp others with ⟨inner, found⟩ | ⟨middle, inner, others⟩
        · exact .inl ⟨.alternativesMore part inner, found⟩
        · exact .inr ⟨middle, .alternativesMore part inner, others⟩
    · rintro (⟨comes, found⟩ | ⟨middle, comes, others⟩)
      · cases comes with
        | alternativesFound part found => exact .alternativesFound part found
        | alternativesMore part inner => exact .alternativesMore part (ih.mpr (.inl ⟨inner, found⟩))
      · cases comes with
        | alternativesFound _ found => cases found
        | alternativesMore part inner =>
          exact .alternativesMore part (ih.mpr (.inr ⟨middle, inner, others⟩))

theorem ComesTo.alternatives_singleton {env : Env} {expr : Expr} {here : Position} {atomic : Bool}
    {items : List Span} {fate : Fate} :
    ComesTo env (.alternatives [expr] here atomic) items fate ↔
      ComesTo env (.expr expr here atomic) items fate := by
  constructor
  · intro comes
    cases comes with
    | alternativesFound part _ => exact part
    | alternativesMore part others =>
      cases others
      exact part
  · intro part
    cases fate with
    | matched | broken => exact .alternativesFound part rfl
    | failed after => exact .alternativesMore part .alternativesEnd

/-- What some alternatives come to, the others come to as well. -/
def OptionsRefine (env : Env) (options others : List Expr) : Prop :=
  ∀ {here : Position} {atomic : Bool} {items : List Span} {fate : Fate},
    ComesTo env (.alternatives options here atomic) items fate →
      ComesTo env (.alternatives others here atomic) items fate

namespace OptionsRefine

variable {env : Env} {options others early late : List Expr}

theorem append (first : OptionsRefine env options others) (second : OptionsRefine env early late) :
    OptionsRefine env (options ++ early) (others ++ late) := by
  intro here atomic items fate comes
  refine ComesTo.alternatives_append.mpr ?_
  rcases ComesTo.alternatives_append.mp comes with ⟨inner, found⟩ | ⟨middle, inner, others⟩
  · exact .inl ⟨first inner, found⟩
  · exact .inr ⟨middle, first inner, second others⟩

theorem replace (inner : OptionsRefine env options others) (early late : List Expr) :
    OptionsRefine env (early ++ (options ++ late)) (early ++ (others ++ late)) :=
  have kept : OptionsRefine env early early := id
  kept.append (inner.append id)

theorem single {expr changed : Expr} (refines : Refines env expr changed) :
    OptionsRefine env [expr] [changed] :=
  fun comes =>
    ComesTo.alternatives_singleton.mpr (refines (ComesTo.alternatives_singleton.mp comes))

/-- A choice stands among alternatives as its own would. -/
theorem flatten (env : Env) (first : Expr) (rest : List Expr) :
    OptionsRefine env [.choice first rest] (first :: rest) := by
  intro here atomic items fate comes
  cases ComesTo.alternatives_singleton.mp comes with
  | choice inner => exact inner

theorem unflatten (env : Env) (first : Expr) (rest : List Expr) :
    OptionsRefine env (first :: rest) [.choice first rest] :=
  fun comes => ComesTo.alternatives_singleton.mpr (.choice comes)

theorem choice {first second : Expr} {rest others : List Expr}
    (refines : OptionsRefine env (first :: rest) (second :: others)) :
    Refines env (.choice first rest) (.choice second others) := by
  intro here atomic items fate comes
  cases comes with
  | choice inner => exact .choice (refines inner)

end OptionsRefine

/-! ### Parts of expressions -/

namespace Refines

variable {env : Env} {expr other : Expr}

theorem opt (refines : Refines env expr other) : Refines env (.opt expr) (.opt other) := by
  intro here atomic items fate comes
  cases comes with
  | opt part same => exact .opt (refines part) same

theorem positive (refines : Refines env expr other) :
    Refines env (.positive expr) (.positive other) := by
  intro here atomic items fate comes
  cases comes with
  | positive part same => exact .positive (refines part) same

theorem negative (refines : Refines env expr other) :
    Refines env (.negative expr) (.negative other) := by
  intro here atomic items fate comes
  cases comes with
  | negative part same => exact .negative (refines part) same

theorem restorable (refines : Refines env expr other) :
    Refines env (.restorable expr) (.restorable other) := by
  intro here atomic items fate comes
  cases comes with
  | restorable part same => exact .restorable (refines part) same

theorem push (refines : Refines env expr other) : Refines env (.push expr) (.push other) := by
  intro here atomic items fate comes
  cases comes with
  | push part same => exact .push (refines part) same

theorem rule (refines : Refines env expr other) (tag : Nat) (name : String) (kind : RuleKind) :
    Refines env (.rule tag name kind expr) (.rule tag name kind other) := by
  intro here atomic items fate comes
  cases comes with
  | rule part => exact .rule (refines part)

theorem pair (refines : Refines env expr other) : Refines env (.pair expr) (.pair other) := by
  intro here atomic items fate comes
  cases comes with
  | pairFirst part stopped => exact .pairFirst (refines part) stopped
  | pair first second => exact .pair (refines first) (refines second)

/-- Every round of a repetition goes as before, and so do those after it. -/
theorem loop (refines : Refines env expr other) {min : Nat} {max : Option Nat} {atomic : Bool}
    {count : Nat} {here : Position} {items : List Span} {fate : Fate}
    (comes : ComesTo env (.loop expr min max atomic count here) items fate) :
    ComesTo env (.loop other min max atomic count here) items fate := by
  generalize asked : Task.loop expr min max atomic count here = task at comes
  induction comes generalizing count here with
  | loopFull full same =>
    cases asked
    exact .loopFull full same
  | loopGap room gap stopped =>
    cases asked
    exact .loopGap room gap stopped
  | loopBroken room gap part =>
    cases asked
    exact .loopBroken room gap (refines part)
  | loopEnd room gap part same =>
    cases asked
    exact .loopEnd room gap (refines part) same
  | loopLimit room gap part beyond =>
    cases asked
    exact .loopLimit room gap (refines part) beyond
  | loopMore room gap part within _ _ _ ih =>
    cases asked
    exact .loopMore room gap (refines part) within (ih rfl)
  | _ => cases asked

theorem rep (refines : Refines env expr other) (min : Nat) (max : Option Nat) :
    Refines env (.rep expr min max) (.rep other min max) := by
  intro here atomic items fate comes
  cases comes with
  | rep rounds => exact .rep (refines.loop rounds)

end Refines

/-! ### Laws -/

theorem Terminal.empty_fate (here : Position) (items : List Span) :
    (Terminal.empty.attempt here (.ofItems items)).fate? = some (.matched here items) := by
  obtain ⟨span, covered, -⟩ := Span.spanTo_eq_ok (.refl here)
  change ((Action.ofExcept .position (here.spanTo here) >>= _ : Action (Option Match)) _).fate? = _
  rw [covered]
  rfl

section

variable (env : Env) (body : Expr)

/-- An optional part is the part, taken back if it fails, or the empty text. -/
theorem Equivalent.opt_choice :
    Equivalent env (.opt body) (.choice (.restorable body) [.terminal .empty]) := by
  constructor
  · intro here atomic items fate comes
    cases comes with
    | @opt _ _ _ _ inner _ part same =>
      subst same
      refine .choice ?_
      cases inner with
      | matched | broken => exact .alternativesFound (.restorable part rfl) rfl
      | failed =>
        exact .alternativesMore (.restorable part rfl)
          (.alternativesFound (.terminal (Terminal.empty_fate ..)) rfl)
  · intro here atomic items fate comes
    cases comes with
    | choice options =>
      cases options with
      | alternativesFound first found =>
        cases first with
        | @restorable _ _ _ _ inner _ part same =>
          subst same
          cases inner with
          | matched | broken => exact .opt part rfl
          | failed => cases found
      | alternativesMore first others =>
        cases first with
        | @restorable _ _ _ _ inner _ part same =>
          cases inner with
          | matched | broken => cases same
          | failed =>
            cases same
            cases ComesTo.alternatives_singleton.mp others with
            | terminal empty =>
              cases (Terminal.empty_fate ..).symm.trans empty
              exact .opt part rfl

/-- To look for a part is to look for it not to be missing. -/
theorem Equivalent.positive_negative :
    Equivalent env (.positive body) (.negative (.negative body)) := by
  constructor
  · intro here atomic items fate comes
    cases comes with
    | @positive _ _ _ _ inner _ part same =>
      subst same
      refine .negative (.negative part rfl) ?_
      cases inner <;> rfl
  · intro here atomic items fate comes
    cases comes with
    | negative outer same =>
      cases outer with
      | @negative _ _ _ _ inner _ part between =>
        subst same between
        refine .positive part ?_
        cases inner <;> rfl

theorem Fate.restored_restored (items : List Span) (fate : Fate) :
    (fate.restored items).restored items = fate.restored items := by
  cases fate <;> rfl

/-- What is taken back already need not be taken back once more. -/
theorem Equivalent.restorable_twice :
    Equivalent env (.restorable (.restorable body)) (.restorable body) := by
  constructor
  · intro here atomic items fate comes
    cases comes with
    | restorable outer same =>
      cases outer with
      | restorable part between =>
        subst same between
        exact .restorable part (Fate.restored_restored ..).symm
  · intro here atomic items fate comes
    cases comes with
    | restorable part same =>
      exact .restorable (.restorable part rfl) ((Fate.restored_restored ..).trans same)

end

end Peg
