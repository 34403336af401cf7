import Peg.Proofs.Scan.Lists
import Peg.Proofs.Scan.Yields

/-!
# The items of lists

What is collected from a list in brackets are the items of the list, whatever stands between them:
each item is matched once, in its place. It is known already of a list what matching takes of it, so
that only the nodes are of concern.
-/
namespace Peg.Scan

open Recognizes
open Intake (must_append)

variable {env : Env}

/-! ### What has to be taken -/

section Recognized

variable {scan : Scan} {intake : Intake} (recognizes : ∀ size, Recognizes env size scan intake)

include recognizes

theorem Recognizes.takes {text rest : List Char} (due : intake.must text rest) :
    scan.Takes env (text ++ rest) (some text) := by
  obtain ⟨outcome, takes, suits⟩ := recognizes _ (text ++ rest) (Nat.lt_succ_self _)
  rwa [suits.must text rest due rfl] at takes

theorem Recognizes.misses {input : List Char} (absent : intake.Absent input) :
    scan.Takes env input none := by
  obtain ⟨outcome, takes, suits⟩ := recognizes _ input (Nat.lt_succ_self _)
  cases outcome with
  | none => exact takes
  | some text =>
    obtain ⟨allowed, rest, front⟩ := suits.may text rfl
    exact absurd front (absent text rest allowed)

end Recognized

/-- What does not begin as it should is not matched. -/
theorem Begins.absent {heads input : List Char} {language follow : List Char → Prop}
    (begins : ∀ text, language text → Begins heads text) {c : Char} {tail : List Char}
    (front : input = c :: tail) (other : c ∉ heads) :
    (Intake.of language follow).Absent input := by
  intro text rest among
  rw [front]
  exact (begins text among).ne other tail rest

/-- From a mark nothing is collected. -/
theorem mark_collects {names : List String} {atomic : Bool} (mark : Char) (rest : List Char) :
    Collects names env atomic (.literal mark.toString) [mark] rest [] :=
  .leaf (Recognizes.takes (mark_recognizes mark) ⟨rfl, trivial⟩)

theorem mark_misses {atomic : Bool} {mark c : Char} (differs : c ≠ mark) (rest : List Char) :
    (expr env atomic (.literal mark.toString)).Takes env (c :: rest) none := by
  refine Recognizes.misses (mark_recognizes mark) ?_
  rintro _ tail rfl front
  exact differs (List.cons.inj front).1

theorem seq_misses {atomic : Bool} {first : Expr} {others : List Expr} {input : List Char}
    (missed : (expr env atomic first).Takes env input none) :
    (expr env atomic (.seq first others)).Takes env input none :=
  (missed.branch_missed failing_takes).unfold seq_unfolds

/-! ### Lists -/

/-- An item with what is ignored around it, and what its match is like. -/
structure Slot where
  before : List Char
  inner : List Char
  after : List Char
  good : Node → Prop

def Slot.chars (slot : Slot) : List Char := slot.before ++ (slot.inner ++ slot.after)

/-- Around the item stands ignored text, and the item is matched wherever it comes to its end. -/
structure Slot.Fits (names : List String) (env : Env) (item : Expr) (ignored follow : Char → Bool)
    (language : List Char → Prop) (slot : Slot) : Prop where
  before : ∀ c ∈ slot.before, ignored c = true
  language : language slot.inner
  after : ∀ c ∈ slot.after, ignored c = true
  collects : ∀ rest, Spares follow rest → Collects names env false item slot.inner rest [slot.good]

section Lists

variable {names : List String} {ignored follow : Char → Bool} {heads : List Char}
  {language : List Char → Prop} {closing : Char} {item : Expr}
  (delimited : Delimited ignored follow heads language closing)
  (gaps : ∀ size, Recognizes env size (gap env false)
    (.of (fun text => ∀ c ∈ text, ignored c = true) (Spares ignored)))

include delimited gaps

/-- Each entry is a match of the repetition, together with what is ignored after it. -/
theorem entries_collect {slots : List Slot}
    (fit : ∀ slot ∈ slots, slot.Fits names env item ignored follow language) {count : Nat}
    (within : Intake.Allows env.repeatLimit (count + slots.length)) (tail : List Char) :
    TurnsCollect names env false (.seq (.literal ",") [item]) 0 slots.length count
      (afterCommas (slots.map Slot.chars)) (closing :: tail) (slots.map Slot.good) := by
  -- What stands after an entry decides on where it ends, so the entries are taken from the front.
  induction slots generalizing count with
  | nil => exact .last (seq_misses (mark_misses delimited.closing_ne tail)) (Nat.zero_le count)
  | cons slot slots ih =>
    obtain ⟨first, others⟩ := List.forall_mem_cons.mp fit
    obtain ⟨front, good, back, collects⟩ := first
    have more := more_spares delimited (slots.map Slot.chars) tail
    have ends := after_item_spares delimited back (slots.map Slot.chars) tail
    have entry : Collects names env false (.seq (.literal ",") [item])
        ([','] ++ (slot.before ++ slot.inner))
        (slot.after ++ (afterCommas (slots.map Slot.chars) ++ closing :: tail)) [slot.good] := by
      have starts := item_spares delimited good
      exact .seq (mark_collects ',' _)
        (.last (Recognizes.takes gaps ⟨front, starts _⟩) (collects _ ends))
    have split : afterCommas ((slot :: slots).map Slot.chars) =
        [','] ++ (slot.before ++ slot.inner) ++
          (slot.after ++ afterCommas (slots.map Slot.chars)) := by
      simp [afterCommas, Slot.chars]
    rw [split]
    have room : Intake.Allows env.repeatLimit (count + 1) := fun most limited =>
      Nat.le_trans (by simp) (within most limited)
    refine TurnsCollect.more entry room (Recognizes.takes gaps ⟨back, more⟩) (ih others ?_)
    rwa [List.length_cons, Nat.add_comm slots.length, ← Nat.add_assoc] at within

variable (inner : ∀ size, Recognizes env size (expr env false item) (.of language (Spares follow)))
  (opening : Char) {name : String} {tag : Nat}
  (defined : env.rules.lookup name =
    some (.rule tag name .silent (.seq item [.rep (.seq (.literal ",") [item]) 0 none])))

include inner defined

/-- From a list without items nothing is collected. -/
theorem empty_list_collects {inside : List Char} (all : ∀ c ∈ inside, ignored c = true)
    (rest : List Char) :
    Collects names env false
      (.seq (.literal opening.toString) [.opt (.ref name), .literal closing.toString])
      (opening :: (inside ++ [closing])) rest [] := by
  have missed : (expr env false (.ref name)).Takes env (closing :: rest) none :=
    (seq_misses (Recognizes.misses inner
      (Begins.absent delimited.begins rfl delimited.closing_not_head))).rule.unfold
        (ref_unfolds defined)
  have nothing : (gap env false).Takes env ([] ++ (closing :: rest)) (some []) :=
    Recognizes.takes gaps ⟨nofun, .cons delimited.closing_counts rest⟩
  have blank : (gap env false).Takes env (inside ++ (closing :: rest)) (some inside) :=
    Recognizes.takes gaps ⟨all, .cons delimited.closing_counts rest⟩
  have items : ItemsCollect names env false [.opt (.ref name), .literal closing.toString]
      (inside ++ ([] ++ ([] ++ [closing]))) rest ([] ++ []) :=
    .cons blank (.optMissed missed) (.last nothing (mark_collects closing rest))
  exact (mark_collects opening _).seq items

omit inner in
/-- From a list all items are collected. -/
theorem list_collects {first : Slot} {others : List Slot}
    (fit : ∀ slot ∈ first :: others, slot.Fits names env item ignored follow language)
    (within : Intake.Allows env.repeatLimit others.length) (rest : List Char) :
    Collects names env false
      (.seq (.literal opening.toString) [.opt (.ref name), .literal closing.toString])
      (opening :: (first.chars ++ (afterCommas (others.map Slot.chars) ++ [closing]))) rest
      (first.good :: others.map Slot.good) := by
  -- The first item comes without a comma, and with its blanks outside of the inner sequence.
  obtain ⟨⟨front, good, back, collects⟩, fit⟩ := List.forall_mem_cons.mp fit
  have more := more_spares delimited (others.map Slot.chars) rest
  have ends := after_item_spares delimited back (others.map Slot.chars) rest
  have entries : Collects names env false (.rep (.seq (.literal ",") [item]) 0 none)
      (afterCommas (others.map Slot.chars)) (closing :: rest) (others.map Slot.good) := by
    refine .rep (entries_collect delimited gaps fit ?_ rest)
    rwa [Nat.zero_add]
  have list : Collects names env false (.ref name)
      (first.inner ++ (first.after ++ afterCommas (others.map Slot.chars))) (closing :: rest)
      ([first.good] ++ others.map Slot.good) := by
    refine Yields.ref defined (Yields.silent ?_)
    refine Collects.seq (collects _ ?_) (.last (Recognizes.takes gaps ⟨back, more⟩) entries)
    rwa [List.append_assoc]
  have nothing : (gap env false).Takes env ([] ++ (closing :: rest)) (some []) :=
    Recognizes.takes gaps ⟨nofun, .cons delimited.closing_counts rest⟩
  have starts := item_spares delimited good
  have items : ItemsCollect names env false [.opt (.ref name), .literal closing.toString]
      (first.before ++ ((first.inner ++ (first.after ++ afterCommas (others.map Slot.chars))) ++
        ([] ++ [closing]))) rest ([first.good] ++ others.map Slot.good ++ []) := by
    refine .cons (Recognizes.takes gaps ⟨front, ?_⟩) (.opt list)
      (.last nothing (mark_collects closing rest))
    simp only [List.append_assoc]
    exact starts _
  have row := (mark_collects opening _).seq items
  simpa [Slot.chars] using row

end Lists

end Peg.Scan
