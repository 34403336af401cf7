import Peg.Proofs.Scan.Exploring
import Peg.Proofs.Scan.Lists

/-!
# How far choices and lists can go on

Choices between texts that begin with different characters, and lists in brackets, are explored as
they are recognized. Where ignored text may belong to one part or to the next one, it is split off
where matching takes it: after an item it belongs to the list, and not to the closing bracket.
-/
namespace Peg.Scan

open Intake (must_append)

variable {env : Env} {size : Nat}

/-! ### Choices -/

/-- Behind a text nothing goes on that does not begin as such texts do. -/
theorem outruns_of_begins {intake : Intake} {other : List Char → Prop} {heads : List Char}
    (begins : ∀ text, intake.may text → Begins heads text)
    (apart : ∀ c tail, other (c :: tail) → c ∉ heads) : intake.Outruns other := by
  rintro text rest n good _ ⟨more, goesOn⟩
  obtain ⟨c, head, tail, rfl⟩ := begins text good
  cases n with
  | zero => exact Nat.zero_le _
  | succ n => exact absurd head (apart c _ goesOn)

namespace Kind

variable {atomic : Bool} {follow : List Char → Prop} {kind : Kind} {kinds : List Kind}

theorem outruns (recognized : ∀ one ∈ kind :: kinds, one.Recognized env size atomic follow)
    (apart : ∀ other ∈ kinds, kind.Apart other) :
    (Intake.of kind.language follow).Outruns (union kinds) := by
  refine outruns_of_begins (recognized kind List.mem_cons_self).begins ?_
  rintro c tail ⟨other, among, inOther⟩
  obtain ⟨d, head, _, same⟩ := (recognized other (List.mem_cons_of_mem kind among)).begins _ inOther
  rw [← (List.cons.inj same).1]
  exact apart other among d head

theorem union_cons (kind : Kind) (kinds : List Kind) (text : List Char) :
    union (kind :: kinds) text ↔ kind.language text ∨ union kinds text := by
  simp [union]

theorem alternatives_explores
    (explored : ∀ one ∈ kind :: kinds,
      Explores env size (Scan.expr env atomic one.expr) one.language)
    (recognized : ∀ one ∈ kind :: kinds, one.Recognized env size atomic follow)
    (apart : (kind :: kinds).Pairwise Apart) :
    Explores env size (alternatives env atomic ((kind :: kinds).map expr))
      (union (kind :: kinds)) := by
  have first := explored kind List.mem_cons_self
  have recognizes := (recognized kind List.mem_cons_self).recognizes
  induction kinds generalizing kind with
  | nil =>
    refine (Explores.alternatives_last recognizes first).congr fun text => ?_
    simp [union, Intake.of]
  | cons next kinds ih =>
    have later := List.forall_mem_cons.mp explored
    have known := List.forall_mem_cons.mp recognized
    obtain ⟨differs, others⟩ := List.pairwise_cons.mp apart
    have late := ih later.2 known.2 others (later.2 next List.mem_cons_self)
      (known.2 next List.mem_cons_self).recognizes
    exact (Explores.alternatives_cons recognizes first late (outruns recognized differs)).congr
      fun text => (union_cons kind (next :: kinds) text).symm

/-- A choice between two alternatives or more. -/
theorem choice_explores {next : Kind}
    (explored : ∀ one ∈ kind :: next :: kinds,
      Explores env size (Scan.expr env atomic one.expr) one.language)
    (recognized : ∀ one ∈ kind :: next :: kinds, one.Recognized env size atomic follow)
    (apart : (kind :: next :: kinds).Pairwise Apart) :
    Explores env size (Scan.expr env atomic (.choice kind.expr ((next :: kinds).map expr)))
      (union (kind :: next :: kinds)) := by
  obtain ⟨first, later⟩ := List.forall_mem_cons.mp explored
  obtain ⟨known, rest⟩ := List.forall_mem_cons.mp recognized
  obtain ⟨differs, others⟩ := List.pairwise_cons.mp apart
  exact (Explores.choice known.recognizes first (alternatives_explores later rest others)
    (outruns recognized differs)).congr fun text => (union_cons kind (next :: kinds) text).symm

end Kind

/-! ### Lists -/

/-- What is ignored, as far as it goes. -/
abbrev ignoring (ignored : Char → Bool) : Intake :=
  .of (fun text => ∀ c ∈ text, ignored c = true) (Spares ignored)

/-- A comma and an item, with what is ignored between them. -/
abbrev entry (ignored follow : Char → Bool) (language : List Char → Prop) : Intake :=
  (Intake.always (· = [','])).followedBy
    ((ignoring ignored).followedBy (.of language (Spares follow)))

/-- The list there may be in brackets, with its intake in front of the closing one. -/
abbrev inBrackets (ignored : Char → Bool) (language : List Char → Prop) (closing : Char) : Intake :=
  (Intake.of (Listed ignored language none) fun rest => ∃ tail, closing :: tail = rest).orElse
    (.always (· = []))

section Lists

variable {ignored follow : Char → Bool} {heads : List Char} {language : List Char → Prop}
  {closing : Char} {item : Expr}

theorem entries_nil (ignored : Char → Bool) (language : List Char → Prop) :
    Entries ignored language none [] :=
  ⟨[], by simp, nofun, rfl⟩

theorem Entries.head {limit : Option Nat} {c : Char} {tail : List Char}
    (entries : Entries ignored language limit (c :: tail)) : c = ',' := by
  obtain ⟨items, _, _, same⟩ := entries
  cases items with
  | nil => cases same
  | cons item items => exact (List.cons.inj same).1.symm

theorem singleton_head {mark c : Char} {tail : List Char} (same : c :: tail = [mark]) : c = mark :=
  (List.cons.inj same).1

/-- What is ignored in front of a text begins with what is ignored, or as that text does. -/
theorem ignored_head {later : List Char → Prop} {accept : Char → Prop} {c : Char} {tail : List Char}
    (joined : Joined (ignoring ignored).may later (c :: tail))
    (passes : ∀ c, ignored c = true → accept c) (heads : ∀ c tail, later (c :: tail) → accept c) :
    accept c := by
  obtain ⟨blanks, late, all, good, same⟩ := joined
  cases blanks with
  | nil =>
    obtain rfl : late = c :: tail := same
    exact heads c tail good
  | cons d blanks =>
    obtain ⟨rfl, _⟩ := List.cons.inj same
    exact passes d (all d List.mem_cons_self)

section Delimited

variable (delimited : Delimited ignored follow heads language closing)

include delimited

theorem item_head {c : Char} {tail : List Char} (good : language (c :: tail)) : c ∈ heads := by
  obtain ⟨d, head, _, same⟩ := delimited.begins _ good
  rwa [← (List.cons.inj same).1]

/-- What may come after an item in a list is not taken with it. -/
theorem after_item_head {c : Char} {tail : List Char}
    (joined : Joined (ignoring ignored).may (Entries ignored language none) (c :: tail)) :
    follow c = false := by
  refine ignored_head joined delimited.ignored_ends fun c tail entries => ?_
  rw [entries.head]
  exact delimited.comma_ends

theorem gap_leads_entries : (ignoring ignored).Leads (Entries ignored language none)
    (Joined (ignoring ignored).may (Entries ignored language none)) := by
  refine .joined_of ⟨[], entries_nil ignored language⟩ fun c tail entries => ?_
  rw [entries.head]
  exact delimited.comma_counts

theorem gap_leads_item (some : ∃ text, language text) : (ignoring ignored).Leads language
    (Joined (ignoring ignored).may language) :=
  .joined_of some fun c _ good => delimited.heads_count c (item_head delimited good)

theorem gap_leads_closing : (ignoring ignored).Leads (· = [closing])
    (Joined (ignoring ignored).may (· = [closing])) := by
  refine .joined_of ⟨_, rfl⟩ fun c _ same => ?_
  rw [singleton_head same]
  exact delimited.closing_counts

/-- What is ignored after an entry is skipped in front of the next round. -/
theorem entry_rounds : (entry ignored follow language).Rounds (ignoring ignored)
    fun _ => Entries ignored language none where
  skips _ := gap_leads_entries delimited
  leads _ := by
    refine ⟨⟨[], [], [], nofun, entries_nil ignored language, rfl⟩, ?_, ?_⟩
    · rintro _ _ ⟨_, _, rfl, ⟨before, inner, front, good, rfl⟩, rfl⟩
        ⟨after, _, back, ⟨items, each, _, rfl⟩, rfl⟩
      refine ⟨(before ++ (inner ++ after)) :: items, ?_, nofun, by simp [afterCommas]⟩
      exact List.forall_mem_cons.mpr ⟨⟨before, inner, after, front, good, back, rfl⟩, each⟩
    · rintro _ ⟨items, each, _, rfl⟩ some
      cases items with
      | nil => exact absurd rfl some
      | cons item items =>
        obtain ⟨⟨before, inner, after, front, good, back, rfl⟩, others⟩ :=
          List.forall_mem_cons.mp each
        have entries : Entries ignored language none (afterCommas items) :=
          ⟨items, others, nofun, rfl⟩
        have left : Joined (ignoring ignored).may (Entries ignored language none)
            (after ++ afterCommas items) := ⟨after, _, back, entries, rfl⟩
        -- The first entry is cut off in front of what is ignored after it.
        refine ⟨[','] ++ (before ++ inner), after ++ afterCommas items,
          ⟨_, _, rfl, ⟨before, inner, front, good, rfl⟩, rfl⟩, left, by simp [afterCommas], ?_⟩
        intro c tail same rest
        have ended := after_item_head delimited (same ▸ left)
        exact must_append ⟨rfl, trivial⟩ (must_append
          ⟨front, item_spares delimited good (c :: rest)⟩ ⟨good, .cons ended rest⟩)

/-- After an item what is ignored belongs to the list, and without a list it is left. -/
theorem list_leads_closing : (inBrackets ignored language closing).Leads
    (Joined (ignoring ignored).may (· = [closing]))
    (Joined (inBrackets ignored language closing).may
      (Joined (ignoring ignored).may (· = [closing]))) := by
  refine ⟨⟨_, [], [closing], nofun, rfl, rfl⟩, fun list more => ⟨_, _, list, more, rfl⟩, ?_⟩
  rintro _ ⟨body, _, list | rfl, ⟨blanks, _, all, rfl, rfl⟩, rfl⟩ _
  · -- The list takes what is ignored after it, and is cut off at the closing bracket.
    have longer : Listed ignored language none (body ++ blanks) := by
      obtain ⟨inner, after, rest, good, back, isRest, rfl⟩ := list
      by_cases alone : rest = []
      · subst alone
        refine ⟨inner, after ++ blanks, [], good, fun c among => ?_, isRest, by simp⟩
        exact (List.mem_append.mp among).elim (back c) (all c)
      · exact ⟨inner, after, rest ++ blanks, good, back, isRest.append alone all, by simp⟩
    refine ⟨body ++ blanks, [closing], .inl longer, ⟨[], _, nofun, rfl, rfl⟩, by simp, ?_⟩
    rintro c tail same rest
    rw [singleton_head same.symm]
    exact .inl ⟨longer, rest, rfl⟩
  · refine ⟨[], blanks ++ [closing], .inr rfl, ⟨blanks, _, all, rfl, rfl⟩, rfl, ?_⟩
    intro c tail same rest
    -- No item begins with what is ignored or with the bracket, so that no list is found.
    have noHead : c ∉ heads := by
      have joined : Joined (ignoring ignored).may (· = [closing]) (c :: tail) :=
        ⟨blanks, _, all, rfl, same⟩
      have passes : ∀ c, ignored c = true → c ∉ heads :=
        fun c passed head => nomatch passed.symm.trans (delimited.heads_count c head)
      refine ignored_head joined passes fun c tail last => ?_
      rw [singleton_head last]
      exact delimited.closing_not_head
    refine .inr ⟨?_, rfl, trivial⟩
    rintro _ final ⟨inner, after, rest, good, _, _, rfl⟩
    rw [List.append_assoc inner]
    exact (delimited.begins inner good).ne noHead _ _

/-- What is ignored after the opening bracket is skipped in front of the list or of the closing
bracket. -/
theorem gap_leads_list : (ignoring ignored).Leads
    (Joined (inBrackets ignored language closing).may
      (Joined (ignoring ignored).may (· = [closing])))
    (Joined (ignoring ignored).may (Joined (inBrackets ignored language closing).may
      (Joined (ignoring ignored).may (· = [closing])))) := by
  have closes : Joined (ignoring ignored).may (· = [closing]) [closing] := ⟨[], _, nofun, rfl, rfl⟩
  have empty : Joined (inBrackets ignored language closing).may
      (Joined (ignoring ignored).may (· = [closing])) [closing] := ⟨[], _, .inr rfl, closes, rfl⟩
  refine ⟨⟨_, empty⟩, fun gap list => ⟨_, _, gap, list, rfl⟩, ?_⟩
  rintro _ ⟨before, _, front, ⟨body, _, list | rfl, more, rfl⟩, rfl⟩ _
  · refine ⟨before, _, front, ⟨body, _, .inl list, more, rfl⟩, rfl, fun c tail same rest => ?_⟩
    obtain ⟨inner, after, entries, good, _, _, rfl⟩ := list
    obtain ⟨d, head, back, rfl⟩ := delimited.begins inner good
    rw [List.cons_append, List.cons_append] at same
    obtain ⟨rfl, _⟩ := List.cons.inj same
    exact ⟨front, .cons (delimited.heads_count d head) rest⟩
  · -- Without a list all that is ignored is skipped at once.
    obtain ⟨blanks, _, all, rfl, rfl⟩ := more
    refine ⟨before ++ blanks, [closing], ?_, empty, by simp, fun c tail same rest => ?_⟩
    · exact fun c among => (List.mem_append.mp among).elim (front c) (all c)
    · rw [singleton_head same.symm]
      refine ⟨fun c among => ?_, .cons delimited.closing_counts rest⟩
      exact (List.mem_append.mp among).elim (front c) (all c)

end Delimited

variable (unlimited : env.repeatLimit = none)
  (delimited : Delimited ignored follow heads language closing) (some : ∃ text, language text)
  (gaps : Recognizes env size (gap env false) (ignoring ignored))
  (skipped : Explores env size (gap env false) (ignoring ignored).may)
  (inner : Recognizes env size (Scan.expr env false item) (.of language (Spares follow)))
  (explored : Explores env size (Scan.expr env false item) language)

include unlimited delimited some gaps skipped inner explored

theorem entries_explores :
    Explores env size (Scan.expr env false (.rep (.seq (.literal ",") [item]) 0 none))
      (Entries ignored language none) := by
  have comma : Recognizes env size (Scan.expr env false (.literal ",")) _ :=
    mark_recognizes ',' size
  have one : Recognizes env size _ (entry ignored follow language) :=
    .seq comma (.items_last gaps inner)
  have extent : Explores env size _ (entry ignored follow language).may :=
    .seq comma (.mark ',' size) (.items_last gaps skipped inner explored
      (gap_leads_item delimited some)) (.joined_always ?_)
  have nonempty : ∀ text, (entry ignored follow language).may text → text ≠ [] := by
    rintro _ ⟨_, _, rfl, _, rfl⟩
    exact List.cons_ne_nil ',' _
  · exact .rep unlimited nonempty one extent gaps skipped (entry_rounds delimited)
  · obtain ⟨text, good⟩ := some
    exact ⟨text, [], text, nofun, good, rfl⟩

theorem list_explores : Explores env size
    (Scan.expr env false (.seq item [.rep (.seq (.literal ",") [item]) 0 none]))
    (Listed ignored language none) := by
  have entries := entries_recognizes delimited gaps inner
  rw [unlimited] at entries
  have ends : (Intake.of language (Spares follow)).Leads _ _ :=
    .joined_of ⟨[], [], [], nofun, entries_nil ignored language, rfl⟩
      fun c tail => after_item_head delimited
  refine (Explores.seq inner explored (.items_last gaps skipped entries
    (entries_explores unlimited delimited some gaps skipped inner explored)
    (gap_leads_entries delimited)) ends).congr fun text => ⟨?_, ?_⟩
  · rintro ⟨inner, _, good, ⟨after, rest, back, isRest, rfl⟩, rfl⟩
    exact ⟨inner, after, rest, good, back, isRest, rfl⟩
  · rintro ⟨inner, after, rest, good, back, isRest, rfl⟩
    exact ⟨inner, _, good, ⟨after, rest, back, isRest, rfl⟩, rfl⟩

/-- As they are recognized, lists in brackets are explored on longer inputs than their items. -/
theorem bracketed_explores (opening : Char) {name : String} {tag : Nat}
    (defined : env.rules.lookup name =
      Option.some (.rule tag name .silent (.seq item [.rep (.seq (.literal ",") [item]) 0 none]))) :
    Explores env (size + 1) (Scan.expr env false
      (.seq (.literal opening.toString) [.opt (.ref name), .literal closing.toString]))
      (Bracketed ignored language none opening closing) := by
  have list : Recognizes env size (Scan.expr env false (.ref name)) _ :=
    .ref defined (.rule (list_recognizes delimited gaps inner))
  rw [unlimited] at list
  have extent : Explores env size (Scan.expr env false (.ref name)) _ :=
    .ref defined (.rule (list_explores unlimited delimited some gaps skipped inner explored))
  have inside : Explores env size _ _ := .items_cons gaps skipped list.opt (.opt list extent)
    (.items_last gaps skipped (mark_recognizes closing size) (.mark closing size)
      (gap_leads_closing delimited))
    (list_leads_closing delimited) (gap_leads_list delimited)
  refine (Explores.seq_shorter (mark_recognizes opening (size + 1)) (.mark opening (size + 1))
    inside ?_ (.joined_always ?_)).congr fun text => ⟨?_, ?_⟩
  · rintro _ rfl
    exact Nat.le_of_eq (Nat.add_comm size 1)
  · exact ⟨_, [], _, nofun, ⟨[], _, .inr rfl, ⟨[], _, nofun, rfl, rfl⟩, rfl⟩, rfl⟩
  · rintro ⟨_, _, rfl, ⟨before, _, front, ⟨body, _, whole, ⟨more, _, blank, rfl, rfl⟩, rfl⟩, rfl⟩,
      rfl⟩
    exact bracketed_of_parts front whole blank
  · rintro (⟨inside, all, rfl⟩ | ⟨_, rest, ⟨before, inner, after, front, good, back, rfl⟩, isRest,
      rfl⟩)
    · exact ⟨[opening], _, rfl, ⟨inside, _, all, ⟨[], _, .inr rfl, ⟨[], _, nofun, rfl, rfl⟩, rfl⟩,
        rfl⟩, rfl⟩
    · have list : Listed ignored language none (inner ++ (after ++ rest)) :=
        ⟨inner, after, rest, good, back, isRest, rfl⟩
      exact ⟨[opening], _, rfl, ⟨before, _, front, ⟨_, _, .inl list, ⟨[], _, nofun, rfl, rfl⟩, rfl⟩,
        rfl⟩, by simp⟩

end Lists

end Peg.Scan
