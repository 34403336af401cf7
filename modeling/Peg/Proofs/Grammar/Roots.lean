import Mathlib.Data.List.Perm.Subperm
import Peg.Engine.Parse
import Peg.Proofs.Grammar.Parts

/-!
# Roots that are atomic rules

Whether ignored text may follow at the end depends on the rule that a root leads to through
references and lazy expressions. The program follows them only so far as there are rules and
definitions; that is far enough, since a way that leads to a rule does so without coming by the same
name twice.
-/
namespace Peg

/-- An expression leads through references and lazy expressions to a rule that forces itself to be
atomic. -/
inductive LeadsToAtomic (env : Env) : Expr → Prop
  | rule {tag : Nat} {name : String} {kind : RuleKind} {body : Expr} :
      kind.forcesAtomic = true → LeadsToAtomic env (.rule tag name kind body)
  | ref {name : String} {target : Expr} :
      env.rules.lookup name = some target → LeadsToAtomic env target →
      LeadsToAtomic env (.ref name)
  | lazy {cell : LazyCell} {target : Expr} :
      env.definitions.resolve cell = .ok target → LeadsToAtomic env target →
      LeadsToAtomic env (.lazy cell)

namespace Env

variable {env : Env}

theorem leadsToAtomic_of_isAtomicWithin {depth : Nat} {expr : Expr}
    (within : env.isAtomicWithin depth expr = true) : LeadsToAtomic env expr := by
  fun_induction isAtomicWithin env depth expr with
  | case1 depth tag name kind body => exact .rule within
  | case2 depth name target defined ih => exact .ref defined (ih within)
  | case3 => cases within
  | case4 depth cell target resolved ih => exact .lazy resolved (ih within)
  | case5 => cases within
  | case6 => cases within

/-- A way to an atomic rule, by the names of the rules (left) and of the definitions (right) that
it comes by. -/
inductive Trail (env : Env) : List (String ⊕ String) → Expr → Prop
  | rule {tag : Nat} {name : String} {kind : RuleKind} {body : Expr} :
      kind.forcesAtomic = true → Trail env [] (.rule tag name kind body)
  | ref {name : String} {target : Expr} {names : List (String ⊕ String)} :
      env.rules.lookup name = some target → Trail env names target →
      Trail env (.inl name :: names) (.ref name)
  | lazy {cell : LazyCell} {target : Expr} {names : List (String ⊕ String)} :
      env.definitions.resolve cell = .ok target → Trail env names target →
      Trail env (.inr cell.definition :: names) (.lazy cell)

namespace Trail

variable {expr : Expr} {names : List (String ⊕ String)}

theorem exists_of_leadsToAtomic (leads : LeadsToAtomic env expr) :
    ∃ names, Trail env names expr := by
  induction leads with
  | rule forces => exact ⟨[], .rule forces⟩
  | ref defined _ ih =>
    obtain ⟨names, trail⟩ := ih
    exact ⟨_, .ref defined trail⟩
  | lazy resolved _ ih =>
    obtain ⟨names, trail⟩ := ih
    exact ⟨_, .lazy resolved trail⟩

/-- Where the trail comes by a name, it goes on from there to the end. -/
theorem exists_from {name : String ⊕ String} (trail : Trail env names expr) (among : name ∈ names) :
    ∃ rest other, (name :: rest).Sublist names ∧ Trail env (name :: rest) other := by
  induction trail with
  | rule => cases among
  | ref defined trail ih =>
    rcases List.mem_cons.mp among with rfl | later
    · exact ⟨_, _, .refl _, .ref defined trail⟩
    · obtain ⟨rest, other, sublist, onward⟩ := ih later
      exact ⟨rest, other, sublist.cons _, onward⟩
  | lazy resolved trail ih =>
    rcases List.mem_cons.mp among with rfl | later
    · exact ⟨_, _, .refl _, .lazy resolved trail⟩
    · obtain ⟨rest, other, sublist, onward⟩ := ih later
      exact ⟨rest, other, sublist.cons _, onward⟩

/-- What comes by a name twice may as well go on from the second time. -/
theorem exists_nodup (trail : Trail env names expr) :
    ∃ fewer, Trail env fewer expr ∧ fewer.Nodup := by
  induction trail with
  | rule forces => exact ⟨[], .rule forces, .nil⟩
  | @ref name target names defined _ ih =>
    obtain ⟨fewer, trail, nodup⟩ := ih
    by_cases again : .inl name ∈ fewer
    · -- The name comes again, and the rule behind it is the same.
      obtain ⟨rest, other, sublist, onward⟩ := trail.exists_from again
      cases onward with
      | ref defined trail => exact ⟨_, .ref defined trail, nodup.sublist sublist⟩
    · exact ⟨_, .ref defined trail, List.nodup_cons.mpr ⟨again, nodup⟩⟩
  | @lazy cell target names resolved _ ih =>
    obtain ⟨fewer, trail, nodup⟩ := ih
    by_cases again : .inr cell.definition ∈ fewer
    · obtain ⟨rest, other, sublist, onward⟩ := trail.exists_from again
      generalize key : (Sum.inr cell.definition : String ⊕ String) = name at onward sublist
      cases onward with
      | ref => cases key
      | @lazy also target _ found trail =>
        -- All lazy expressions of a definition stand for the same.
        have same : cell.definition = also.definition := Sum.inr.inj key
        have found : env.definitions.resolve cell = .ok target := by
          rw [Definitions.resolve, same]
          exact found
        rw [← key] at sublist
        exact ⟨_, .lazy found trail, nodup.sublist sublist⟩
    · exact ⟨_, .lazy resolved trail, List.nodup_cons.mpr ⟨again, nodup⟩⟩

/-- The names are those of rules and definitions. -/
theorem subset (trail : Trail env names expr) :
    names ⊆ env.rules.map (.inl ∘ Prod.fst) ++ env.definitions.map (.inr ∘ Prod.fst) := by
  induction trail with
  | rule => exact List.nil_subset _
  | ref defined _ ih =>
    have among := mem_of_lookup defined
    exact List.cons_subset.mpr ⟨List.mem_append_left _ (List.mem_map_of_mem among), ih⟩
  | lazy resolved _ ih =>
    have among := mem_of_lookup (Definitions.lookup_of_resolve resolved)
    exact List.cons_subset.mpr ⟨List.mem_append_right _ (List.mem_map_of_mem among), ih⟩

theorem isAtomicWithin (trail : Trail env names expr) {depth : Nat}
    (enough : names.length ≤ depth) : env.isAtomicWithin depth expr = true := by
  induction trail generalizing depth with
  | rule forces =>
    unfold Env.isAtomicWithin
    exact forces
  | ref defined _ ih =>
    cases depth with
    | zero => exact absurd enough (Nat.not_succ_le_zero _)
    | succ depth =>
      simp only [Env.isAtomicWithin, defined]
      exact ih (Nat.le_of_succ_le_succ enough)
  | lazy resolved _ ih =>
    cases depth with
    | zero => exact absurd enough (Nat.not_succ_le_zero _)
    | succ depth =>
      simp only [Env.isAtomicWithin, resolved]
      exact ih (Nat.le_of_succ_le_succ enough)

end Trail

/-- The depth to which a root is followed is enough to find the rule that it leads to. -/
theorem isAtomic_iff {expr : Expr} : env.isAtomic expr = true ↔ LeadsToAtomic env expr := by
  constructor
  · exact leadsToAtomic_of_isAtomicWithin
  · intro leads
    obtain ⟨names, trail⟩ := Trail.exists_of_leadsToAtomic leads
    obtain ⟨fewer, trail, nodup⟩ := trail.exists_nodup
    refine trail.isAtomicWithin ?_
    -- There are no more names than rules and definitions.
    have bound := (List.subperm_of_subset nodup trail.subset).length_le
    rw [List.length_append, List.length_map, List.length_map] at bound
    exact Nat.le_succ_of_le bound

end Env

end Peg
