import Mathlib.Logic.Relation
import Peg.Engine.Action

/-!
# What an expression is made of

The parts of an expression are the expressions that it is built from, and what a reference or a lazy
expression stands for. An expression contains its parts, theirs, and so on; as rules may refer to
themselves, it may contain itself.
-/
namespace Peg

/-! ### Tables -/

theorem mem_of_lookup {α : Type} {table : List (String × α)} {name : String} {value : α}
    (found : table.lookup name = some value) : (name, value) ∈ table := by
  obtain ⟨front, back, rfl, _⟩ := List.lookup_eq_some_iff.mp found
  exact List.mem_append_right front List.mem_cons_self

theorem lookup_map {α β : Type} (table : List (String × α)) (name : String) (f : α → β) :
    (table.map fun entry => (entry.1, f entry.2)).lookup name = (table.lookup name).map f := by
  induction table with
  | nil => rfl
  | cons entry rest ih =>
    obtain ⟨key, value⟩ := entry
    simp only [List.map_cons, List.lookup_cons, ih]
    split <;> rfl

theorem Definitions.lookup_of_resolve {definitions : Definitions} {cell : LazyCell} {target : Expr}
    (resolved : definitions.resolve cell = .ok target) :
    definitions.lookup cell.definition = some (.ok target) := by
  unfold Definitions.resolve at resolved
  split at resolved
  next value found =>
    rw [found, resolved]
  · cases resolved

/-! ### Parts -/

/-- An expression has another one as a part, or stands for it. -/
inductive Uses (env : Env) : Expr → Expr → Prop
  | seq {first : Expr} {rest : List Expr} {part : Expr} :
      part ∈ first :: rest → Uses env (.seq first rest) part
  | choice {first : Expr} {rest : List Expr} {part : Expr} :
      part ∈ first :: rest → Uses env (.choice first rest) part
  | opt {body : Expr} : Uses env (.opt body) body
  | rep {body : Expr} {min : Nat} {max : Option Nat} : Uses env (.rep body min max) body
  | positive {body : Expr} : Uses env (.positive body) body
  | negative {body : Expr} : Uses env (.negative body) body
  | restorable {body : Expr} : Uses env (.restorable body) body
  | push {body : Expr} : Uses env (.push body) body
  | rule {tag : Nat} {name : String} {kind : RuleKind} {body : Expr} :
      Uses env (.rule tag name kind body) body
  | ref {name : String} {target : Expr} :
      env.rules.lookup name = some target → Uses env (.ref name) target
  | lazy {cell : LazyCell} {target : Expr} :
      env.definitions.resolve cell = .ok target → Uses env (.lazy cell) target
  | pair {body : Expr} : Uses env (.pair body) body

/-- An expression is another one, or has it inside, however far. -/
def Contains (env : Env) : Expr → Expr → Prop := Relation.ReflTransGen (Uses env)

/-- Every expression that an expression contains, itself included, has a property. -/
def Throughout (env : Env) (holds : Expr → Prop) (expr : Expr) : Prop :=
  ∀ part, Contains env expr part → holds part

namespace Throughout

variable {env : Env} {holds : Expr → Prop} {expr : Expr}

theorem self (all : Throughout env holds expr) : holds expr := all expr .refl

theorem part (all : Throughout env holds expr) {part : Expr} (uses : Uses env expr part) :
    Throughout env holds part :=
  fun inner contains => all inner (.head uses contains)

theorem of_parts (self : holds expr)
    (parts : ∀ part, Uses env expr part → Throughout env holds part) :
    Throughout env holds expr := by
  intro inner contains
  rcases contains.cases_head with rfl | ⟨part, uses, contains⟩
  · exact self
  · exact parts part uses inner contains

theorem terminal {leaf : Terminal} (self : holds (.terminal leaf)) :
    Throughout env holds (.terminal leaf) := of_parts self nofun

end Throughout

end Peg
