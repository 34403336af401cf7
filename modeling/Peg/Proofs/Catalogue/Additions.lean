import Peg.Catalogue
import Peg.Expr.Build
import Mathlib.Data.List.Basic

/-!
# What is added to a catalogue

Whatever is done to a catalogue, its tables change by single additions only: a rule is put at the
end of the table of one grammar, and from then on belongs to that grammar. An addition happens only
if the table has no rule of that name and the rule belongs to no other grammar.
-/

namespace Peg.Catalogue

variable {catalogue after : Catalogue} {number : Nat}

/-! ### Looking up what was put -/

theorem grammar_of_size_le (beyond : catalogue.grammars.size ≤ number) :
    catalogue.grammar number = {} := by
  simp [grammar, Array.getElem?_eq_none beyond]

@[simp]
theorem size_put (number : Nat) (changed : Grammar) :
    (catalogue.put number changed).grammars.size = catalogue.grammars.size := by
  simp [put]

theorem grammar_put (known : number < catalogue.grammars.size) (changed : Grammar) (other : Nat) :
    (catalogue.put number changed).grammar other =
      if other = number then changed else catalogue.grammar other := by
  by_cases same : other = number
  · subst same
    simp [grammar, put, known]
  · simp [grammar, put, same, Ne.symm same]

@[simp]
theorem owner?_put (number : Nat) (changed : Grammar) (rule : Rule) :
    (catalogue.put number changed).owner? rule = catalogue.owner? rule := rfl

@[simp]
theorem size_insertRule (number : Nat) (rule : Rule) :
    (catalogue.insertRule number rule).grammars.size = catalogue.grammars.size :=
  size_put number _

theorem grammar_insertRule (known : number < catalogue.grammars.size) (rule : Rule) (other : Nat) :
    (catalogue.insertRule number rule).grammar other =
      if other = number then (catalogue.grammar number).insert rule else catalogue.grammar other :=
  grammar_put known _ other

theorem owner?_insertRule (rule asked : Rule) :
    (catalogue.insertRule number rule).owner? asked =
      if asked.tag = rule.tag then some number else catalogue.owner? asked := by
  by_cases same : asked.tag = rule.tag
  · simp [owner?, insertRule, same]
  · simp [owner?, insertRule, put, List.lookup_cons, same, beq_eq_false_iff_ne.mpr same]

/-- The catalogue in which a grammar is begun. -/
def begun (catalogue : Catalogue) (fresh : Grammar) : Catalogue :=
  { catalogue with grammars := catalogue.grammars.push fresh }

@[simp]
theorem size_begun (fresh : Grammar) :
    (catalogue.begun fresh).grammars.size = catalogue.grammars.size + 1 := by
  simp [begun]

theorem grammar_begun (fresh : Grammar) (other : Nat) :
    (catalogue.begun fresh).grammar other =
      if other = catalogue.grammars.size then fresh else catalogue.grammar other := by
  by_cases same : other = catalogue.grammars.size
  · simp [grammar, begun, same]
  · simp [grammar, begun, same, Array.getElem?_push]

/-- The catalogue in which a grammar has another start. -/
def restart (catalogue : Catalogue) (number : Nat) (start : Option Operand) : Catalogue :=
  catalogue.put number { catalogue.grammar number with start }

theorem rules_restart (known : number < catalogue.grammars.size) (start : Option Operand)
    (other : Nat) : ((catalogue.restart number start).grammar other).rules =
      (catalogue.grammar other).rules := by
  rw [restart, grammar_put known]
  split
  · next same => rw [same]
  · rfl

theorem grammar_restart_of_ne (known : number < catalogue.grammars.size) (start : Option Operand)
    {other : Nat} (different : other ≠ number) :
    (catalogue.restart number start).grammar other = catalogue.grammar other := by
  rw [restart, grammar_put known, if_neg different]

/-! ### Additions -/

/-- A rule may be added: its name is not in the table, and it belongs to no other grammar. -/
structure Admits (catalogue : Catalogue) (number : Nat) (rule : Rule) : Prop where
  absent : (catalogue.grammar number).contains rule.name = false
  free : ∀ owner, catalogue.owner? rule = some owner → owner = number

theorem addRule_eq_ok {rule : Rule} (added : catalogue.addRule number rule = .ok after) :
    catalogue.Admits number rule ∧ after = catalogue.insertRule number rule := by
  rw [addRule] at added
  split at added
  · cases added
  · next absent =>
    rw [Bool.not_eq_true] at absent
    split at added
    · next unowned =>
      cases added
      exact ⟨⟨absent, fun owner owned => by simp [unowned] at owned⟩, rfl⟩
    · next owner owned =>
      split at added
      · next same =>
        cases added
        refine ⟨⟨absent, fun other found => ?_⟩, rfl⟩
        rw [owned] at found
        exact (Option.some.inj found).symm.trans same
      · cases added

theorem add_eq_ok {operand : Operand} {rule : Rule}
    (added : catalogue.add number operand = .ok (rule, after)) :
    operand.rule? = some rule ∧ catalogue.Admits number rule ∧
      after = catalogue.insertRule number rule := by
  cases known : operand.rule? with
  | none => simp [add, ruleOf, known, bind, Except.bind] at added
  | some found =>
    cases done : catalogue.addRule number found with
    | error => simp [add, ruleOf, known, done, bind, Except.bind] at added
    | ok later =>
      simp only [add, ruleOf, known, done, bind, Except.bind, pure, Except.pure, Except.ok.injEq,
        Prod.mk.injEq] at added
      obtain ⟨rfl, rfl⟩ := added
      exact ⟨rfl, addRule_eq_ok done⟩

/-- Some rules are added to a grammar, one after another. -/
inductive Adds (number : Nat) : Catalogue → List Rule → Catalogue → Prop
  /-- Nothing is added. -/
  | none {catalogue : Catalogue} : Adds number catalogue [] catalogue
  /-- A rule is added, and others after it. -/
  | more {catalogue after : Catalogue} {rule : Rule} {rest : List Rule} :
    catalogue.Admits number rule → Adds number (catalogue.insertRule number rule) rest after →
      Adds number catalogue (rule :: rest) after

/-- The rules that are added out of a list, up to the first that cannot be added. -/
def added (catalogue : Catalogue) (number : Nat) : List Operand → List Rule
  | [] => []
  | operand :: rest =>
    match catalogue.add number operand with
    | .ok (rule, catalogue) => rule :: catalogue.added number rest
    | .error _ => []

theorem adds_addAll (catalogue : Catalogue) (number : Nat) (operands : List Operand) :
    Adds number catalogue (catalogue.added number operands)
      (catalogue.addAll number operands).2 := by
  induction operands generalizing catalogue with
  | nil => exact .none
  | cons operand rest ih =>
    cases added : catalogue.add number operand with
    | error => simpa [Catalogue.added, addAll, added] using .none
    | ok pair =>
      obtain ⟨rule, after⟩ := pair
      obtain ⟨_, admits, rfl⟩ := add_eq_ok added
      simpa [Catalogue.added, addAll, added] using .more admits (ih _)

theorem rule?_of_mem_added {operands : List Operand} {rule : Rule}
    (member : rule ∈ catalogue.added number operands) :
    ∃ operand ∈ operands, operand.rule? = some rule := by
  induction operands generalizing catalogue with
  | nil => cases member
  | cons operand rest ih =>
    rw [added] at member
    split at member
    · next found later added =>
      rcases List.mem_cons.mp member with rfl | later
      · exact ⟨operand, List.mem_cons_self, (add_eq_ok added).1⟩
      · obtain ⟨other, among, known⟩ := ih later
        exact ⟨other, List.mem_cons_of_mem _ among, known⟩
    · cases member

namespace Adds

variable {rules : List Rule}

theorem size (adds : Adds number catalogue rules after) :
    after.grammars.size = catalogue.grammars.size := by
  induction adds with
  | none => rfl
  | more _ _ ih => rw [ih, size_insertRule]

/-- What every single addition keeps is kept by all of them. -/
theorem preserves (holds : Catalogue → Prop) (adds : Adds number catalogue rules after)
    (known : number < catalogue.grammars.size)
    (kept : ∀ (catalogue : Catalogue), ∀ rule ∈ rules, number < catalogue.grammars.size →
      catalogue.Admits number rule → holds catalogue → holds (catalogue.insertRule number rule))
    (before : holds catalogue) : holds after := by
  induction adds with
  | none => exact before
  | @more catalogue _ rule _ admits _ ih =>
    refine ih (by rwa [size_insertRule]) (fun other added among => ?_)
      (kept catalogue rule List.mem_cons_self known admits before)
    exact kept other added (List.mem_cons_of_mem _ among)

/-- The table has the added rules at its end, and all other grammars are as before. -/
theorem tables (adds : Adds number catalogue rules after)
    (known : number < catalogue.grammars.size) (other : Nat) :
    (after.grammar other).rules =
      (catalogue.grammar other).rules ++ if other = number then rules else [] := by
  induction adds with
  | none => simp
  | more _ _ ih =>
    rw [ih (by rwa [size_insertRule]), grammar_insertRule known]
    by_cases same : other = number
    · subst same
      simp [Grammar.insert]
    · simp [same]

end Adds

end Peg.Catalogue
