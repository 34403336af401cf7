import Peg.Proofs.Scan.Classes

/-!
# Choices and lists

Choices between texts that begin with different characters, and lists in brackets with commas
between the items and ignored text around them. What is recognized there is what a grammar without
order of choice and without greed would say.
-/
namespace Peg.Scan

open Recognizes
open Intake (must_append)

variable {env : Env} {size : Nat}

/-! ### Choices -/

/-- Whether the text begins with one of the characters. -/
def Begins (heads : List Char) (text : List Char) : Prop := ∃ c ∈ heads, ∃ tail, c :: tail = text

theorem Begins.spares {heads text : List Char} {accept : Char → Bool} (begins : Begins heads text)
    (refused : ∀ c ∈ heads, accept c = false) (rest : List Char) :
    Spares accept (text ++ rest) := by
  obtain ⟨c, among, tail, rfl⟩ := begins
  exact .cons (refused c among) _

theorem Begins.ne {heads text : List Char} {c : Char} (begins : Begins heads text)
    (other : c ∉ heads) (rest tail : List Char) : c :: rest ≠ text ++ tail := by
  obtain ⟨d, among, remains, rfl⟩ := begins
  intro front
  rw [(List.cons.inj front).1] at other
  exact other among

/-- An alternative of a choice, with what the texts look like that it matches. -/
structure Kind where
  expr : Expr
  heads : List Char
  language : List Char → Prop

namespace Kind

/-- The alternative recognizes its language, all texts of which begin as they should. -/
structure Recognized (env : Env) (size : Nat) (atomic : Bool) (follow : List Char → Prop)
    (kind : Kind) : Prop where
  recognizes : Recognizes env size (Scan.expr env atomic kind.expr) (.of kind.language follow)
  begins : ∀ text, kind.language text → Begins kind.heads text

/-- No character begins texts of both. -/
def Apart (kind other : Kind) : Prop := ∀ c ∈ other.heads, c ∉ kind.heads

/-- The texts of all alternatives. -/
def union (kinds : List Kind) (text : List Char) : Prop := ∃ kind ∈ kinds, kind.language text

variable {atomic : Bool} {follow : List Char → Prop} {kind : Kind} {kinds : List Kind}

/-- Where a text of a later alternative stands, the first one does not match. -/
theorem branch_recognizes {later : Scan}
    (recognized : ∀ one ∈ kind :: kinds, one.Recognized env size atomic follow)
    (apart : ∀ other ∈ kinds, kind.Apart other)
    (late : Recognizes env size later (.of (union kinds) follow)) :
    Recognizes env size (branch (Scan.expr env atomic kind.expr) later standing)
      (.of (union (kind :: kinds)) follow) := by
  have first := recognized kind List.mem_cons_self
  refine (first.recognizes.orElse late).weaken ?_ ?_
  · rintro text (inFirst | ⟨other, among, inOther⟩)
    · exact ⟨kind, List.mem_cons_self, inFirst⟩
    · exact ⟨other, List.mem_cons_of_mem kind among, inOther⟩
  · rintro text rest ⟨⟨other, among, inOther⟩, fits⟩
    rcases List.mem_cons.mp among with rfl | among
    · exact .inl ⟨inOther, fits⟩
    · refine .inr ⟨?_, ⟨other, among, inOther⟩, fits⟩
      rintro instead tail inFirst
      have begun := (recognized other (List.mem_cons_of_mem kind among)).begins text inOther
      obtain ⟨c, head, remains, rfl⟩ := begun
      exact (first.begins instead inFirst).ne (apart other among c head) _ tail

theorem alternatives_recognizes
    (recognized : ∀ one ∈ kinds, one.Recognized env size atomic follow)
    (apart : kinds.Pairwise Apart) :
    Recognizes env size (alternatives env atomic (kinds.map expr)) (.of (union kinds) follow) := by
  induction kinds with
  | nil =>
    refine alternatives_nil.weaken (fun _ impossible => impossible.elim) ?_
    rintro text rest ⟨⟨kind, none, _⟩, _⟩
    cases none
  | cons kind kinds ih =>
    obtain ⟨first, others⟩ := List.pairwise_cons.mp apart
    have late := ih (fun one among => recognized one (List.mem_cons_of_mem kind among)) others
    exact (branch_recognizes recognized first late).refine alternatives_cons_refines

theorem choice_recognizes
    (recognized : ∀ one ∈ kind :: kinds, one.Recognized env size atomic follow)
    (apart : (kind :: kinds).Pairwise Apart) :
    Recognizes env size (Scan.expr env atomic (.choice kind.expr (kinds.map expr)))
      (.of (union (kind :: kinds)) follow) := by
  obtain ⟨first, others⟩ := List.pairwise_cons.mp apart
  have later : ∀ one ∈ kinds, one.Recognized env size atomic follow :=
    fun one among => recognized one (List.mem_cons_of_mem kind among)
  have late : Recognizes env size (alternatives env atomic (kinds.map expr)) _ :=
    alternatives_recognizes later others
  exact (branch_recognizes recognized first late).unfold choice_unfolds

end Kind

/-! ### Lists -/

/-- A text of the language with ignored text around it. -/
def Padded (ignored : Char → Bool) (language : List Char → Prop) (text : List Char) : Prop :=
  ∃ before inner after, (∀ c ∈ before, ignored c = true) ∧ language inner ∧
    (∀ c ∈ after, ignored c = true) ∧ before ++ (inner ++ after) = text

/-- Some texts, each after a comma. -/
def afterCommas (items : List (List Char)) : List Char := (items.map (',' :: ·)).flatten

/-- As many items as the limit allows, each after a comma. -/
def Entries (ignored : Char → Bool) (language : List Char → Prop) (limit : Option Nat)
    (text : List Char) : Prop :=
  ∃ items : List (List Char), (∀ item ∈ items, Padded ignored language item) ∧
    Intake.Allows limit items.length ∧ afterCommas items = text

/-- Items in brackets, or nothing but ignored text in them. -/
def Bracketed (ignored : Char → Bool) (language : List Char → Prop) (limit : Option Nat)
    (opening closing : Char) (text : List Char) : Prop :=
  (∃ inside, (∀ c ∈ inside, ignored c = true) ∧ opening :: (inside ++ [closing]) = text) ∨
    ∃ first rest, Padded ignored language first ∧ Entries ignored language limit rest ∧
      opening :: (first ++ (rest ++ [closing])) = text

/-- An item and the entries after it, with what is ignored between them. -/
def Listed (ignored : Char → Bool) (language : List Char → Prop) (limit : Option Nat)
    (text : List Char) : Prop :=
  ∃ inner after rest, language inner ∧ (∀ c ∈ after, ignored c = true) ∧
    Entries ignored language limit rest ∧ inner ++ (after ++ rest) = text

theorem Bracketed.begins {ignored : Char → Bool} {language : List Char → Prop} {limit : Option Nat}
    {opening closing : Char} {text : List Char}
    (bracketed : Bracketed ignored language limit opening closing text) :
    Begins [opening] text := by
  rcases bracketed with ⟨inside, _, rfl⟩ | ⟨first, rest, _, _, rfl⟩
  · exact ⟨opening, List.mem_singleton_self opening, _, rfl⟩
  · exact ⟨opening, List.mem_singleton_self opening, _, rfl⟩

/-- Where the items are what is made of some things within the limit, lists are made of lists of
them that are. -/
theorem bracketed_iff {Thing : Type} {Within : Nat → Thing → Prop} {make : Thing → List Char}
    {ignored : Char → Bool} {language : List Char → Prop} {limit : Option Nat}
    {opening closing : Char}
    (items : ∀ item, Padded ignored language item ↔
      ∃ thing, (∀ most, limit = some most → Within most thing) ∧ make thing = item)
    (text : List Char) : Bracketed ignored language limit opening closing text ↔
      (∃ inside, (∀ c ∈ inside, ignored c = true) ∧ opening :: (inside ++ [closing]) = text) ∨
        ∃ first, ∃ rest : List Thing, (∀ most, limit = some most →
          rest.length ≤ most ∧ Within most first ∧ ∀ thing ∈ rest, Within most thing) ∧
            opening :: (make first ++
              ((rest.map fun thing => ',' :: make thing).flatten ++ [closing])) = text := by
  have written : ∀ rest : List Thing,
      (rest.map fun thing => ',' :: make thing).flatten = afterCommas (rest.map make) := by
    intro rest
    rw [afterCommas, List.map_map]
    rfl
  simp only [written]
  refine or_congr Iff.rfl ⟨?_, ?_⟩
  · rintro ⟨first, _, isFirst, ⟨rest, each, short, rfl⟩, rfl⟩
    obtain ⟨first, fine, rfl⟩ := (items first).mp isFirst
    obtain ⟨rest, all, rfl⟩ := Intake.exists_map fun item among => (items item).mp (each item among)
    rw [List.length_map] at short
    refine ⟨first, rest, fun most limited => ?_, rfl⟩
    exact ⟨short most limited, fine most limited, fun thing among => all thing among most limited⟩
  · rintro ⟨first, rest, within, rfl⟩
    refine ⟨make first, _, (items _).mpr ⟨first, fun most limited => ?_, rfl⟩,
      ⟨rest.map make, List.forall_mem_map.mpr fun thing among => (items _).mpr
        ⟨thing, fun most limited => ?_, rfl⟩, ?_, rfl⟩, rfl⟩
    · exact (within most limited).2.1
    · exact (within most limited).2.2 thing among
    · rw [List.length_map]
      exact fun most limited => (within most limited).1

theorem Padded.append {ignored : Char → Bool} {language : List Char → Prop} {text more : List Char}
    (padded : Padded ignored language text) (all : ∀ c ∈ more, ignored c = true) :
    Padded ignored language (text ++ more) := by
  obtain ⟨before, inner, after, front, good, back, rfl⟩ := padded
  refine ⟨before, inner, after ++ more, front, good, ?_, by simp⟩
  intro c among
  exact (List.mem_append.mp among).elim (back c) (all c)

/-- Ignored text after the last entry belongs to it. -/
theorem Entries.append {ignored : Char → Bool} {language : List Char → Prop} {limit : Option Nat}
    {text more : List Char} (entries : Entries ignored language limit text) (some : text ≠ [])
    (all : ∀ c ∈ more, ignored c = true) : Entries ignored language limit (text ++ more) := by
  obtain ⟨items, each, within, rfl⟩ := entries
  -- The ignored text goes to the last one of the items.
  rcases List.eq_nil_or_concat items with rfl | ⟨front, last, rfl⟩
  · exact absurd rfl some
  · rw [List.concat_eq_append] at each within ⊢
    rw [List.length_append, List.length_singleton] at within
    refine ⟨front ++ [last ++ more], ?_, ?_, ?_⟩
    · intro item among
      rcases List.mem_append.mp among with early | final
      · exact each item (List.mem_append_left _ early)
      · rw [List.mem_singleton.mp final]
        exact (each last (by simp)).append all
    · rwa [List.length_append, List.length_singleton]
    · simp [afterCommas]

/-- What is ignored in front of the closing bracket follows the last item, if there is one. -/
theorem bracketed_of_parts {ignored : Char → Bool} {language : List Char → Prop}
    {limit : Option Nat} {opening closing : Char} {before body more : List Char}
    (front : ∀ c ∈ before, ignored c = true)
    (whole : Listed ignored language limit body ∨ body = [])
    (blank : ∀ c ∈ more, ignored c = true) :
    Bracketed ignored language limit opening closing
      ([opening] ++ (before ++ (body ++ (more ++ [closing])))) := by
  rcases whole with ⟨inner, after, rest, good, back, isRest, rfl⟩ | rfl
  · have first : Padded ignored language (before ++ (inner ++ after)) :=
      ⟨before, inner, after, front, good, back, rfl⟩
    by_cases alone : rest = []
    · subst alone
      exact .inr ⟨_, [], first.append blank, isRest, by simp⟩
    · exact .inr ⟨_, rest ++ more, first, isRest.append alone blank, by simp⟩
  · refine .inl ⟨before ++ more, fun c among => ?_, by simp⟩
    exact (List.mem_append.mp among).elim (front c) (blank c)

theorem entries_spares {other : Char → Bool} {closing : Char} (comma : other ',' = false)
    (closes : other closing = false) (items : List (List Char)) (tail : List Char) :
    Spares other (afterCommas items ++ closing :: tail) := by
  cases items with
  | nil => exact .cons closes tail
  | cons item items => exact .cons comma _

theorem padding_spares {ignored other : Char → Bool} {blanks rest : List Char}
    (all : ∀ c ∈ blanks, ignored c = true) (refused : ∀ c, ignored c = true → other c = false)
    (spares : Spares other rest) : Spares other (blanks ++ rest) := by
  cases blanks with
  | nil => exact spares
  | cons c blanks => exact .cons (refused c (all c List.mem_cons_self)) _

section Lists

variable {ignored follow : Char → Bool} {heads : List Char} {language : List Char → Prop}
  {closing : Char} {item : Expr}

/-- What it takes to tell where an item of a list ends, and where the list does. -/
structure Delimited (ignored follow : Char → Bool) (heads : List Char)
    (language : List Char → Prop) (closing : Char) : Prop where
  begins : ∀ text, language text → Begins heads text
  heads_count : ∀ c ∈ heads, ignored c = false
  ignored_ends : ∀ c, ignored c = true → follow c = false
  comma_ends : follow ',' = false
  comma_counts : ignored ',' = false
  closing_ends : follow closing = false
  closing_counts : ignored closing = false
  closing_ne : closing ≠ ','
  closing_not_head : closing ∉ heads

variable (delimited : Delimited ignored follow heads language closing)
  (gaps : Recognizes env size (gap env false)
    (.of (fun text => ∀ c ∈ text, ignored c = true) (Spares ignored)))
  (inner : Recognizes env size (Scan.expr env false item) (.of language (Spares follow)))

include delimited

omit env size item gaps inner in
theorem item_spares {text : List Char} (good : language text) (rest : List Char) :
    Spares ignored (text ++ rest) :=
  (delimited.begins text good).spares delimited.heads_count rest

omit env size item gaps inner in
/-- No ignored text goes on with more entries, nor with the end of the list. -/
theorem more_spares (items : List (List Char)) (tail : List Char) :
    Spares ignored (afterCommas items ++ closing :: tail) :=
  entries_spares delimited.comma_counts delimited.closing_counts items tail

omit env size item gaps inner in
/-- An item does not go on with what may come after it in a list. -/
theorem after_item_spares {after : List Char} (back : ∀ c ∈ after, ignored c = true)
    (items : List (List Char)) (tail : List Char) :
    Spares follow (after ++ (afterCommas items ++ closing :: tail)) :=
  padding_spares back delimited.ignored_ends
    (entries_spares delimited.comma_ends delimited.closing_ends items tail)

include gaps inner

/-- Entries have to be taken in front of the closing bracket. -/
theorem entries_recognizes :
    Recognizes env size (Scan.expr env false (.rep (.seq (.literal ",") [item]) 0 none))
      (.of (Entries ignored language env.repeatLimit)
        fun rest => ∃ tail, closing :: tail = rest) := by
  have entry : Recognizes env size _ _ :=
    seq (mark_recognizes ',' size) (items_last gaps inner)
  have nonempty : ∀ text, ((Intake.always (· = [','])).followedBy
      ((Intake.of (fun text => ∀ c ∈ text, ignored c = true) (Spares ignored)).followedBy
        (.of language (Spares follow)))).may text → text ≠ [] := by
    rintro _ ⟨_, _, rfl, _, rfl⟩
    exact List.cons_ne_nil ',' _
  refine (rep nonempty entry gaps).weaken ?_ ?_
  · rintro text ⟨items, each, _, within, rfl⟩
    have single : ∀ entry ∈ items, ∃ item, Padded ignored language item ∧ ',' :: item = entry := by
      intro entry among
      obtain ⟨_, after, ⟨_, _, rfl, ⟨before, inner, front, good, rfl⟩, rfl⟩, back, rfl⟩ :=
        each entry among
      exact ⟨_, ⟨before, inner, after, front, good, back, rfl⟩, by simp⟩
    obtain ⟨items, padded, rfl⟩ := Intake.exists_map single
    rw [List.length_map, Nat.zero_add] at within
    exact ⟨items, padded, within, rfl⟩
  · rintro text rest ⟨⟨items, padded, within, rfl⟩, tail, rfl⟩
    refine ⟨items.map (',' :: ·), ?_, Nat.zero_le _, ?_, ?_, rfl⟩
    · -- Whether an entry is due depends on the entries after it, not on how many there are.
      clear within
      induction items with
      | nil => trivial
      | cons item items ih =>
        obtain ⟨first, others⟩ := List.forall_mem_cons.mp padded
        obtain ⟨before, inner, after, front, good, back, rfl⟩ := first
        have counted := more_spares delimited items tail
        have ended := after_item_spares delimited back items tail
        have starts : Spares ignored (inner ++ (after ++ (afterCommas items ++ closing :: tail))) :=
          item_spares delimited good _
        have split : ',' :: (before ++ (inner ++ after)) = [','] ++ (before ++ inner) ++ after := by
          simp
        refine ⟨?_, ih others⟩
        change Intake.must _ (',' :: (before ++ (inner ++ after))) _
        rw [split]
        exact must_append (must_append ⟨rfl, trivial⟩
          (must_append ⟨front, starts⟩ ⟨good, ended⟩)) ⟨back, counted⟩
    · rwa [List.length_map, Nat.zero_add]
    · rintro _ _ ⟨_, _, rfl, _, rfl⟩ front
      exact delimited.closing_ne (List.cons.inj front).1

/-- What stands in the brackets from the first item on. -/
theorem list_recognizes :
    Recognizes env size
      (Scan.expr env false (.seq item [.rep (.seq (.literal ",") [item]) 0 none]))
      (.of (Listed ignored language env.repeatLimit)
        fun rest => ∃ tail, closing :: tail = rest) := by
  have entries := entries_recognizes delimited gaps inner
  refine (seq inner (items_last gaps entries)).weaken ?_ ?_
  · rintro text ⟨inner, _, good, ⟨after, rest, back, isRest, rfl⟩, rfl⟩
    exact ⟨inner, after, rest, good, back, isRest, rfl⟩
  · rintro text _ ⟨⟨inner, after, rest, good, back, isRest, rfl⟩, tail, rfl⟩
    have counted : Spares ignored (rest ++ closing :: tail) := by
      obtain ⟨items, _, _, rfl⟩ := isRest
      exact more_spares delimited items tail
    have ended : Spares follow (after ++ (rest ++ closing :: tail)) := by
      obtain ⟨items, _, _, rfl⟩ := isRest
      exact after_item_spares delimited back items tail
    refine must_append ⟨good, ?_⟩ (must_append ⟨back, counted⟩ ⟨isRest, tail, rfl⟩)
    rwa [List.append_assoc]

/-- A list in brackets is recognized on inputs that are longer by one character than those on which
its items are, since the opening bracket comes first. -/
theorem bracketed_recognizes (opening : Char) {name : String} {tag : Nat}
    (defined : env.rules.lookup name =
      some (.rule tag name .silent (.seq item [.rep (.seq (.literal ",") [item]) 0 none]))) :
    Recognizes env (size + 1) (Scan.expr env false
      (.seq (.literal opening.toString) [.opt (.ref name), .literal closing.toString]))
      (.always (Bracketed ignored language env.repeatLimit opening closing)) := by
  have list : Recognizes env size (Scan.expr env false (.ref name)) _ :=
    ref defined (rule (list_recognizes delimited gaps inner))
  have close : Recognizes env size (Scan.expr env false (.literal closing.toString)) _ :=
    mark_recognizes closing size
  refine (seq_shorter (mark_recognizes opening (size + 1))
    (items_cons gaps (opt list) (items_last gaps close)) ?_).weaken ?_ ?_
  · rintro _ rfl
    exact Nat.le_of_eq (Nat.add_comm size 1)
  · rintro text ⟨_, _, rfl, ⟨before, _, front, ⟨body, _, whole, ⟨more, _, blank, rfl, rfl⟩, rfl⟩,
      rfl⟩, rfl⟩
    exact bracketed_of_parts front whole blank
  · rintro text tail ⟨⟨inside, all, rfl⟩ | ⟨_, rest, ⟨before, inner, after, front, good, back, rfl⟩,
      isRest, rfl⟩, _⟩
    · -- With nothing but ignored text inside, no list begins where it ends.
      change Intake.must _ ([opening] ++ (inside ++ ([] ++ ([] ++ [closing])))) tail
      refine must_append ⟨rfl, trivial⟩ (must_append ⟨all, .cons delimited.closing_counts tail⟩
        (must_append (.inr ⟨?_, rfl, trivial⟩)
          (must_append ⟨nofun, .cons delimited.closing_counts tail⟩ ⟨rfl, trivial⟩)))
      rintro _ final ⟨inner, after, rest, good, _, _, rfl⟩
      rw [List.append_assoc inner]
      exact (delimited.begins inner good).ne delimited.closing_not_head _ _
    · -- The list takes all ignored text after it, and none is left in front of the bracket.
      have split : opening :: (before ++ (inner ++ after) ++ (rest ++ [closing])) =
          [opening] ++ (before ++ (inner ++ (after ++ rest) ++ ([] ++ [closing]))) := by simp
      rw [split]
      refine must_append ⟨rfl, trivial⟩ (must_append ⟨front, ?_⟩
        (must_append (.inl ⟨⟨inner, after, rest, good, back, isRest, rfl⟩, tail, rfl⟩)
          (must_append ⟨nofun, .cons delimited.closing_counts tail⟩ ⟨rfl, trivial⟩)))
      rw [List.append_assoc inner, List.append_assoc inner]
      exact item_spares delimited good _

end Lists

end Peg.Scan
