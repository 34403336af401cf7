import Mathlib.Data.Finite.Prod
import Mathlib.Data.Set.Finite.Basic
import Mathlib.Order.WellFounded
import Peg.Engine.Parse
import Peg.Proofs.Grammar.Emptiness
import Peg.Proofs.Grammar.Parts

/-!
# Calls before anything is consumed

To match an expression, atomically or not, is to ask for matches of others. It asks for some of them
where it stands itself, namely as long as all that was matched before may be empty: these are its
left calls. In a grammar without left recursion no chain of left calls comes back to where it
started, and then there is no endless chain either. Chains go down through the parts of expressions
and can only start again from one of the finitely many expressions that rules, definitions and
ignored text stand for.
-/
namespace Peg

/-- The expressions that ignored text and what is referred to stand for. -/
def Env.landings (env : Env) : List Expr :=
  .ignored :: (env.skippers ++ env.rules.map Prod.snd ++
    env.definitions.filterMap fun definition => definition.2.toOption)

/-- An expression with its atomicity may ask for another one, if what it has asked for before has
been passed. -/
inductive Requests (env : Env) (passes : Expr → Prop) : Expr × Bool → Expr × Bool → Prop
  | seqItem {first part : Expr} {rest before after : List Expr} {atomic : Bool} :
      first :: rest = before ++ part :: after → (∀ item ∈ before, passes item) →
      Requests env passes (.seq first rest, atomic) (part, atomic)
  /-- Between the items of a sequence that is not atomic. -/
  | seqGap {first next : Expr} {rest before after : List Expr} :
      first :: rest = before ++ next :: after → before ≠ [] → (∀ item ∈ before, passes item) →
      Requests env passes (.seq first rest, false) (.ignored, false)
  | choice {first part : Expr} {rest : List Expr} {atomic : Bool} :
      part ∈ first :: rest → Requests env passes (.choice first rest, atomic) (part, atomic)
  | opt {body : Expr} {atomic : Bool} : Requests env passes (.opt body, atomic) (body, atomic)
  | rep {body : Expr} {min : Nat} {max : Option Nat} {atomic : Bool} :
      max ≠ some 0 → Requests env passes (.rep body min max, atomic) (body, atomic)
  /-- Between the matches of a repetition that is not atomic and may have two of them. -/
  | repGap {body : Expr} {min : Nat} {max : Option Nat} :
      max ≠ some 0 → max ≠ some 1 → passes body →
      Requests env passes (.rep body min max, false) (.ignored, false)
  | positive {body : Expr} {atomic : Bool} :
      Requests env passes (.positive body, atomic) (body, atomic)
  | negative {body : Expr} {atomic : Bool} :
      Requests env passes (.negative body, atomic) (body, atomic)
  | restorable {body : Expr} {atomic : Bool} :
      Requests env passes (.restorable body, atomic) (body, atomic)
  | push {body : Expr} {atomic : Bool} : Requests env passes (.push body, atomic) (body, atomic)
  | rule {tag : Nat} {name : String} {kind : RuleKind} {body : Expr} {atomic : Bool} :
      Requests env passes (.rule tag name kind body, atomic) (body, kind.bodyAtomic atomic)
  | ref {name : String} {target : Expr} {atomic : Bool} :
      env.rules.lookup name = some target →
      Requests env passes (.ref name, atomic) (target, atomic)
  | lazy {cell : LazyCell} {target : Expr} {atomic : Bool} :
      env.definitions.resolve cell = .ok target →
      Requests env passes (.lazy cell, atomic) (target, atomic)
  | skipper {skipper : Expr} :
      skipper ∈ env.skippers → Requests env passes (.ignored, false) (skipper, true)
  | pair {body : Expr} {atomic : Bool} : Requests env passes (.pair body, atomic) (body, atomic)

/-- What an expression may ask for at all. -/
def Calls (env : Env) : Expr × Bool → Expr × Bool → Prop := Requests env fun _ => True

/-- What an expression may ask for before it has consumed anything. -/
def LeftCalls (env : Env) : Expr × Bool → Expr × Bool → Prop := Requests env (PossiblyEmpty env)

/-- What a parse of a root may come to ask for: what the root does, and, unless it is atomic, what
the ignored text at the end does. -/
def Entered (env : Env) (root : Expr) (config : Expr × Bool) : Prop :=
  Relation.ReflTransGen (Calls env) (root, false) config ∨
    (¬env.isAtomic root = true ∧ Relation.ReflTransGen (Calls env) (.ignored, false) config)

variable {env : Env} {root : Expr} {config part : Expr × Bool}

theorem LeftCalls.calls (leftCalls : LeftCalls env config part) : Calls env config part := by
  cases leftCalls with
  | seqItem split _ => exact .seqItem split fun _ _ => trivial
  | seqGap split started _ => exact .seqGap split started fun _ _ => trivial
  | choice among => exact .choice among
  | opt => exact .opt
  | rep some => exact .rep some
  | repGap some several _ => exact .repGap some several trivial
  | positive => exact .positive
  | negative => exact .negative
  | restorable => exact .restorable
  | push => exact .push
  | rule => exact .rule
  | ref defined => exact .ref defined
  | lazy resolved => exact .lazy resolved
  | skipper among => exact .skipper among
  | pair => exact .pair

theorem Entered.calls (entered : Entered env root config) (calls : Calls env config part) :
    Entered env root part :=
  entered.imp (·.tail calls) (And.imp_right (·.tail calls))

/-- What holds of the beginnings and is kept by calls holds of all that a parse may ask for. -/
theorem Entered.inside {holds : Expr × Bool → Prop} (entered : Entered env root config)
    (begin : holds (root, false)) (rest : holds (.ignored, false))
    (kept : ∀ config part, holds config → Calls env config part → holds part) : holds config := by
  rcases entered with reached | ⟨_, reached⟩
  all_goals
    induction reached with
    | refl => assumption
    | tail _ calls ih => exact kept _ _ ih calls

theorem Entered.transGen (entered : Entered env root config)
    (calls : Relation.TransGen (LeftCalls env) config part) : Entered env root part := by
  induction calls with
  | single leftCalls => exact entered.calls leftCalls.calls
  | tail _ leftCalls ih => exact ih.calls leftCalls.calls

/-! ### Chains of left calls -/

theorem sizeOf_lt_of_mem {first part : Expr} {rest : List Expr} (among : part ∈ first :: rest) :
    sizeOf part < 1 + sizeOf first + sizeOf rest := by
  rcases List.mem_cons.mp among with rfl | later
  · omega
  · have smaller := List.sizeOf_lt_of_mem later
    omega

/-- A call goes down to a part of the expression, or lands on one of finitely many others. -/
theorem Calls.smaller_or_landing (calls : Calls env config part) :
    sizeOf part.1 < sizeOf config.1 ∨ part.1 ∈ env.landings := by
  cases calls with
  | @seqItem first part rest before after atomic split _ =>
    have among : part ∈ first :: rest := by
      rw [split]
      exact List.mem_append_right _ List.mem_cons_self
    left
    rw [Expr.seq.sizeOf_spec]
    exact sizeOf_lt_of_mem among
  | choice among =>
    left
    rw [Expr.choice.sizeOf_spec]
    exact sizeOf_lt_of_mem among
  | opt | rep | positive | negative | restorable | push | rule | pair => simp +arith
  | seqGap | repGap => exact .inr List.mem_cons_self
  | ref defined =>
    refine .inr (List.mem_cons_of_mem _ (List.mem_append_left _ (List.mem_append_right _ ?_)))
    exact List.mem_map_of_mem (mem_of_lookup defined)
  | lazy resolved =>
    refine .inr (List.mem_cons_of_mem _ (List.mem_append_right _ ?_))
    exact List.mem_filterMap.mpr ⟨_, mem_of_lookup (Definitions.lookup_of_resolve resolved), rfl⟩
  | skipper among =>
    exact .inr (List.mem_cons_of_mem _ (List.mem_append_left _ (List.mem_append_left _ among)))

/-- Where chains of left calls that land again come to an end, all chains do. -/
theorem acc_of_landings
    (landed : ∀ later, Relation.TransGen (LeftCalls env) config later → later.1 ∈ env.landings →
      Acc (fun later earlier => LeftCalls env earlier later) later) :
    Acc (fun later earlier => LeftCalls env earlier later) config := by
  induction size : sizeOf config.1 using Nat.strongRecOn generalizing config with
  | ind size ih =>
    refine Acc.intro config fun part leftCalls => ?_
    -- A part that is smaller lands only where the whole does.
    rcases leftCalls.calls.smaller_or_landing with smaller | landing
    · have lands : ∀ later, Relation.TransGen (LeftCalls env) part later →
          later.1 ∈ env.landings → Acc (fun later earlier => LeftCalls env earlier later) later :=
        fun later calls => landed later (.head leftCalls calls)
      exact ih (sizeOf part.1) (size ▸ smaller) lands rfl
    · exact landed part (.single leftCalls) landing

/-- Without left recursion there is no endless chain of left calls. -/
theorem acc_leftCalls
    (acyclic : ∀ config, Entered env root config → ¬Relation.TransGen (LeftCalls env) config config)
    (entered : Entered env root config) :
    Acc (fun later earlier => LeftCalls env earlier later) config := by
  -- The entered configurations at which chains can start again are finitely many.
  let Landing := { config : Expr × Bool // config.1 ∈ env.landings ∧ Entered env root config }
  have finite : Finite Landing := by
    have flags : (Set.univ : Set Bool).Finite := Set.finite_univ
    have all := (List.finite_toSet env.landings).prod flags
    exact (all.subset fun config inside => ⟨inside.1, trivial⟩).to_subtype
  let Onward (later earlier : Landing) := Relation.TransGen (LeftCalls env) earlier.1 later.1
  -- Without cycles the order in which they follow each other has no endless chain.
  have wellFounded : WellFounded Onward := by
    have trans : IsTrans Landing Onward := ⟨fun _ _ _ late early => early.trans late⟩
    have irrefl : Std.Irrefl Onward := ⟨fun config cycle => acyclic config.1 config.2.2 cycle⟩
    exact Finite.wellFounded_of_trans_of_irrefl Onward
  have landings : ∀ landing : Landing,
      Acc (fun later earlier => LeftCalls env earlier later) landing.1 := by
    intro landing
    induction landing using wellFounded.induction with
    | _ landing ih =>
      exact acc_of_landings fun later calls lands =>
        ih ⟨later, lands, landing.2.2.transGen calls⟩ calls
  exact acc_of_landings fun later calls lands => landings ⟨later, lands, entered.transGen calls⟩

end Peg
