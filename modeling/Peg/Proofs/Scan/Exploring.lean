import Peg.Proofs.Scan.Extent

/-!
# Scans that get as far as the text can go on

A scan explores a language if on every input it gets exactly as far as the longest front that is
viable for the language: no failure is beyond that front, and one is at its end unless the match is.
There is a rule for every kind of expression. Behind a choice or an optional part nothing may go on
that was not tried, and repetitions are explored only where there is no limit to them.
-/
namespace Peg

namespace Scan

/-- On all inputs shorter than the size, the scan gets as far as the input is viable. -/
def Explores (env : Env) (size : Nat) (scan : Scan) (language : List Char → Prop) : Prop :=
  ∀ input, input.length < size → ∃ reach, scan.Attains env input reach ∧
    Extent language input reach

namespace Explores

variable {env : Env} {size less : Nat} {scan inner first ended more : Scan}
  {intake between : Intake} {language other later whole : List Char → Prop}

theorem refine (explores : Explores env size inner language) (refines : scan.Refines inner) :
    Explores env size scan language := by
  intro input short
  obtain ⟨reach, attains, extent⟩ := explores input short
  exact ⟨reach, attains.refine refines, extent⟩

theorem unfold (explores : Explores env size inner language) (unfolds : scan.Unfolds inner) :
    Explores env size scan language := by
  intro input short
  obtain ⟨reach, attains, extent⟩ := explores input short
  exact ⟨reach, attains.unfold unfolds, extent⟩

theorem smaller (explores : Explores env size scan language) (le : less ≤ size) :
    Explores env less scan language :=
  fun input short => explores input (Nat.lt_of_lt_of_le short le)

theorem zero (env : Env) (scan : Scan) (language : List Char → Prop) :
    Explores env 0 scan language :=
  fun _ short => absurd short (Nat.not_lt_zero _)

theorem congr (explores : Explores env size scan language)
    (same : ∀ text, language text ↔ other text) : Explores env size scan other := by
  rwa [← funext fun text => propext (same text)]

theorem stays : Explores env size stays (· = []) := fun input _ => ⟨0, stays_attains, .nil input⟩

/-- The second of two texts is looked for where the first one ends. -/
theorem followedBy (takes : Recognizes env size first intake)
    (early : Explores env size first intake.may) (late : Explores env less more later)
    (room : ∀ text, intake.may text → size ≤ text.length + less)
    (leads : intake.Leads later whole) : Explores env size (branch first quits more) whole := by
  intro input short
  obtain ⟨outcome, taken, suits⟩ := takes input short
  obtain ⟨reach, attains, extent⟩ := early input short
  cases outcome with
  | none => exact ⟨reach, .branch_quits taken attains, leads.extent_missed suits extent⟩
  | some text =>
    obtain ⟨allowed, rest, rfl⟩ := suits.may text rfl
    have shorter : rest.length < less := by
      have bound := room text allowed
      rw [List.length_append] at short
      omega
    obtain ⟨further, goesOn, onward⟩ := late rest shorter
    exact ⟨_, .branch_found taken attains goesOn, leads.extent_found suits extent onward⟩

theorem orElse (takes : Recognizes env size first intake)
    (early : Explores env size first intake.may) (late : Explores env size ended other)
    (outruns : intake.Outruns other) :
    Explores env size (branch first ended Scan.stays) fun text => intake.may text ∨ other text := by
  intro input short
  obtain ⟨outcome, taken, suits⟩ := takes input short
  obtain ⟨reach, attains, extent⟩ := early input short
  cases outcome with
  | none =>
    obtain ⟨further, goesOn, onward⟩ := late input short
    exact ⟨_, .branch_missed taken attains goesOn, extent.union onward⟩
  | some text =>
    obtain ⟨allowed, rest, rfl⟩ := suits.may text rfl
    have within := extent.le_of_mem allowed
    refine ⟨_, .branch_found taken attains stays_attains, ?_⟩
    rw [Nat.add_zero, Nat.max_eq_left within]
    refine ⟨extent.le, fun n le => ⟨fun reached => ?_, ?_⟩⟩
    · exact ((extent.iff n le).mp reached).mono fun _ => .inl
    · rintro ⟨more, good | good⟩
      · exact (extent.iff n le).mpr ⟨more, good⟩
      · -- The other language is not tried, but it goes no further than the text that was taken.
        exact Nat.le_trans (outruns text rest n allowed le ⟨more, good⟩) within

/-- The last alternative is followed by no other one. -/
theorem orQuit (takes : Recognizes env size first intake)
    (early : Explores env size first intake.may) :
    Explores env size (branch first quits Scan.stays) intake.may := by
  intro input short
  obtain ⟨outcome, taken, suits⟩ := takes input short
  obtain ⟨reach, attains, extent⟩ := early input short
  cases outcome with
  | none => exact ⟨reach, .branch_quits taken attains, extent⟩
  | some text =>
    obtain ⟨allowed, rest, rfl⟩ := suits.may text rfl
    refine ⟨_, .branch_found taken attains stays_attains, ?_⟩
    rwa [Nat.add_zero, Nat.max_eq_left (extent.le_of_mem allowed)]

/-- To look for a text and not to find it is no failure where it is optional. -/
theorem orStay (takes : Recognizes env size first intake)
    (early : Explores env size first intake.may) :
    Explores env size (branch first Scan.stays Scan.stays)
      fun text => intake.may text ∨ text = [] := by
  intro input short
  obtain ⟨outcome, taken, suits⟩ := takes input short
  obtain ⟨reach, attains, extent⟩ := early input short
  have same : Extent (fun text => intake.may text ∨ text = []) input reach :=
    extent.congr (fun text some => by simp [some]) ⟨[], .inr rfl⟩
  cases outcome with
  | none =>
    refine ⟨_, .branch_missed taken attains stays_attains, ?_⟩
    rwa [Nat.max_zero]
  | some text =>
    obtain ⟨allowed, rest, rfl⟩ := suits.may text rfl
    refine ⟨_, .branch_found taken attains stays_attains, ?_⟩
    rwa [Nat.add_zero, Nat.max_eq_left (extent.le_of_mem allowed)]

theorem settled (explores : Explores env size scan language) :
    Explores env size (settled scan) language := by
  intro input short
  obtain ⟨reach, attains, extent⟩ := explores input short
  exact ⟨reach, attains.settled, extent⟩

/-! ### Expressions -/

section Expressions

variable {atomic : Bool} {expr body : Expr} {rest : List Expr}

open Recognizes (keep)

theorem seq_shorter (takes : Recognizes env size (Scan.expr env atomic expr) intake)
    (early : Explores env size (Scan.expr env atomic expr) intake.may)
    (late : Explores env less (items env atomic rest) later)
    (room : ∀ text, intake.may text → size ≤ text.length + less)
    (leads : intake.Leads later whole) :
    Explores env size (Scan.expr env atomic (.seq expr rest)) whole :=
  (followedBy takes early late room leads).unfold seq_opens

theorem seq (takes : Recognizes env size (Scan.expr env atomic expr) intake)
    (early : Explores env size (Scan.expr env atomic expr) intake.may)
    (late : Explores env size (items env atomic rest) later) (leads : intake.Leads later whole) :
    Explores env size (Scan.expr env atomic (.seq expr rest)) whole :=
  seq_shorter takes early late keep leads

theorem items_nil : Explores env size (items env atomic []) (· = []) :=
  stays.refine items_nil_stays

theorem items_atomic (takes : Recognizes env size (Scan.expr env true expr) intake)
    (early : Explores env size (Scan.expr env true expr) intake.may)
    (late : Explores env size (items env true rest) later) (leads : intake.Leads later whole) :
    Explores env size (items env true (expr :: rest)) whole :=
  (followedBy takes early late keep leads).refine items_atomic_opens

theorem items_atomic_last (takes : Recognizes env size (Scan.expr env true expr) intake)
    (early : Explores env size (Scan.expr env true expr) intake.may) :
    Explores env size (items env true [expr]) intake.may :=
  items_atomic takes early items_nil (.closed intake)

section Gaps

variable (skips : Recognizes env size (Scan.gap env atomic) between)
  (skipped : Explores env size (Scan.gap env atomic) between.may)
  (takes : Recognizes env size (Scan.expr env atomic expr) intake)
  (early : Explores env size (Scan.expr env atomic expr) intake.may)

include skips skipped takes early

theorem items_cons {part : List Char → Prop}
    (late : Explores env size (items env atomic rest) later) (leads : intake.Leads later part)
    (between : between.Leads part whole) :
    Explores env size (items env atomic (expr :: rest)) whole :=
  (followedBy skips skipped (followedBy takes early late keep leads) keep between).refine
    items_cons_opens

theorem items_last (between : between.Leads intake.may whole) :
    Explores env size (items env atomic [expr]) whole :=
  items_cons skips skipped takes early items_nil (.closed intake) between

end Gaps

theorem choice (takes : Recognizes env size (Scan.expr env atomic expr) intake)
    (early : Explores env size (Scan.expr env atomic expr) intake.may)
    (late : Explores env size (alternatives env atomic rest) other)
    (outruns : intake.Outruns other) :
    Explores env size (Scan.expr env atomic (.choice expr rest))
      fun text => intake.may text ∨ other text :=
  (orElse takes early late outruns).unfold choice_opens

theorem alternatives_cons (takes : Recognizes env size (Scan.expr env atomic expr) intake)
    (early : Explores env size (Scan.expr env atomic expr) intake.may)
    (late : Explores env size (alternatives env atomic rest) other)
    (outruns : intake.Outruns other) :
    Explores env size (alternatives env atomic (expr :: rest))
      fun text => intake.may text ∨ other text :=
  (orElse takes early late outruns).refine alternatives_cons_opens

theorem alternatives_last (takes : Recognizes env size (Scan.expr env atomic expr) intake)
    (early : Explores env size (Scan.expr env atomic expr) intake.may) :
    Explores env size (alternatives env atomic [expr]) intake.may :=
  (orQuit takes early).refine
    (alternatives_cons_opens.trans (branch_refines alternatives_nil_quits (.refl _)))

theorem opt (takes : Recognizes env size (Scan.expr env atomic body) intake)
    (inner : Explores env size (Scan.expr env atomic body) intake.may) :
    Explores env size (Scan.expr env atomic (.opt body)) fun text => intake.may text ∨ text = [] :=
  (orStay takes.settled inner.settled).unfold opt_opens

theorem ref {name : String} {target : Expr} (defined : env.rules.lookup name = some target)
    (inner : Explores env size (Scan.expr env atomic target) language) :
    Explores env size (Scan.expr env atomic (.ref name)) language :=
  inner.unfold (ref_unfolds defined)

theorem rule {tag : Nat} {name : String} {kind : RuleKind}
    (inner : Explores env size (Scan.expr env (kind.bodyAtomic atomic) body) language) :
    Explores env size (Scan.expr env atomic (.rule tag name kind body)) language := by
  intro input short
  obtain ⟨reach, attains, extent⟩ := inner input short
  exact ⟨reach, attains.rule, extent⟩

/-! ### Repetitions -/

theorem turn {min count : Nat} {row : Nat → List Char → Prop}
    (unlimited : env.repeatLimit = none) (nonempty : ∀ text, intake.may text → text ≠ [])
    (takes : Recognizes env size (Scan.expr env atomic body) intake)
    (inner : Explores env size (Scan.expr env atomic body) intake.may)
    (skips : Recognizes env size (gap env atomic) between)
    (skipped : Explores env size (gap env atomic) between.may)
    (rounds : intake.Rounds between row) :
    Explores env size (turn env atomic body min size count) (row (min - count)) := by
  -- As for what is recognized, the rounds are as many as the size allows.
  induction size generalizing count with
  | zero => exact zero env _ _
  | succ size ih =>
    have less := Nat.le_add_right size 1
    intro input short
    obtain ⟨outcome, taken, suits⟩ := takes input short
    obtain ⟨reach, attains, extent⟩ := inner input short
    have leads := rounds.leads (min - count)
    cases outcome with
    | none => exact ⟨reach, .turn_missed taken attains, leads.extent_missed suits extent⟩
    | some text =>
      obtain ⟨allowed, rest, rfl⟩ := suits.may text rfl
      have some := List.length_pos_iff.mpr (nonempty text allowed)
      have shorter : rest.length < size := by
        rw [List.length_append] at short
        omega
      have later : Explores env size (Scan.turn env atomic body min size (count + 1)) _ :=
        ih (takes.smaller less) (inner.smaller less) (skips.smaller less) (skipped.smaller less)
      obtain ⟨further, goesOn, onward⟩ := followedBy (skips.smaller less) (skipped.smaller less)
        later keep (rounds.skips (min - (count + 1))) rest shorter
      rw [← Nat.sub_sub] at onward
      exact ⟨_, .turn_found unlimited taken attains goesOn, leads.extent_found suits extent onward⟩

theorem rep {min : Nat} {row : Nat → List Char → Prop}
    (unlimited : env.repeatLimit = none) (nonempty : ∀ text, intake.may text → text ≠ [])
    (takes : Recognizes env size (Scan.expr env atomic body) intake)
    (inner : Explores env size (Scan.expr env atomic body) intake.may)
    (skips : Recognizes env size (gap env atomic) between)
    (skipped : Explores env size (gap env atomic) between.may)
    (rounds : intake.Rounds between row) :
    Explores env size (Scan.expr env atomic (.rep body min none)) (row min) := by
  intro input short
  have turns : Explores env size (Scan.turn env atomic body min size 0) (row (min - 0)) :=
    turn unlimited nonempty takes inner skips skipped rounds
  obtain ⟨reach, attains, extent⟩ := turns input short
  exact ⟨reach, attains.rep size, extent⟩

end Expressions

/-! ### Terminals and classes -/

section Classes

variable {atomic : Bool} {accept : Char → Bool}

theorem literal (text : String) (size : Nat) :
    Explores env size (Scan.expr env atomic (.literal text)) (· = text.toList) :=
  fun input _ => ⟨_, literal_attains text, .single text.toList input⟩

theorem mark (mark : Char) (size : Nat) :
    Explores env size (Scan.expr env atomic (.literal mark.toString)) (· = [mark]) :=
  (literal mark.toString size).congr fun text => by simp

/-- What takes one character of a class explores the class. -/
theorem one (attains : scan.AttainsOne env accept) (inhabited : ∃ c, accept c = true) (size : Nat) :
    Explores env size scan fun text => ∃ c, accept c = true ∧ [c] = text :=
  fun input _ => ⟨_, attains input, .one inhabited input⟩

theorem gap_atomic : Explores env size (Scan.gap env true) (· = []) := by
  intro input _
  have takes : (Scan.gap env true).Takes env input (some []) := by
    refine standing_takes.refine ?_
    rintro fuel here action rfl
    change Stops true _ (· = some here)
    exact .pure rfl
  exact ⟨0, gap_attains takes, .nil input⟩

/-- Ignored text is explored as the longest row of its characters. -/
theorem gap {skipper : Expr} (takes : (Scan.expr env true skipper).TakesOne env accept)
    (single : env.skippers = [skipper]) (size : Nat) :
    Explores env size (Scan.gap env false) fun text => ∀ c ∈ text, accept c = true :=
  fun input _ => ⟨_, gap_attains (gap_takes takes single input), .row accept input⟩

/-- As many characters of a class as there are, in an atomic repetition. -/
theorem digits {body : Expr} (unlimited : env.repeatLimit = none)
    (takes : (Scan.expr env true body).TakesOne env accept)
    (attains : (Scan.expr env true body).AttainsOne env accept)
    (inhabited : ∃ c, accept c = true) (size min : Nat) :
    Explores env size (Scan.expr env true (.rep body min none))
      fun text => (∀ c ∈ text, accept c = true) ∧ min ≤ text.length := by
  have nonempty : ∀ text, (∃ c, accept c = true ∧ [c] = text) → text ≠ [] := by
    rintro _ ⟨c, _, rfl⟩
    simp
  have rows : (Intake.always fun text => ∃ c, accept c = true ∧ [c] = text).Rounds
      (.always (· = []))
      fun needed text => (∀ c ∈ text, accept c = true) ∧ needed ≤ text.length := by
    obtain ⟨sample, accepted⟩ := inhabited
    refine .of_atomic fun needed => .of_always ?_ ?_ ?_
    · exact ⟨List.replicate (needed - 1) sample, by simp +contextual [accepted]⟩
    · rintro _ late ⟨c, good, rfl⟩ ⟨all, enough⟩
      exact ⟨List.forall_mem_cons.mpr ⟨good, all⟩, by simp; omega⟩
    · rintro text ⟨all, enough⟩ some
      cases text with
      | nil => exact absurd rfl some
      | cons c tail =>
        obtain ⟨good, others⟩ := List.forall_mem_cons.mp all
        exact ⟨[c], tail, ⟨c, good, rfl⟩, ⟨others, by simpa using enough⟩, rfl⟩
  exact rep unlimited nonempty (takes.recognizes size) (one attains inhabited size) .gap_atomic
    gap_atomic rows

end Classes

end Explores

end Scan

end Peg
