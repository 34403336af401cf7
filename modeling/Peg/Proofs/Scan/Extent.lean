import Peg.Proofs.Scan.Reach
import Mathlib.Order.Bounds.Defs
import Mathlib.Order.MinMax

/-!
# How far a text can go on

A front of an input is viable for a language if it can be extended to a text of the language. The
extent of a language in an input is the length of the longest such front.

Where a text is made of two, the extent is that of the first language, or that of the second one
behind a text of the first. This takes more than that both extents are known: the text that was
taken has to be the one that is to be split off. So it is asked that every text can be split where
the first part has to be taken, whatever comes after.
-/
namespace Peg

/-- The text can be extended to a text of the language. -/
def Viable (language : List Char → Prop) (text : List Char) : Prop :=
  ∃ more, language (text ++ more)

theorem Viable.mono {language other : List Char → Prop} {text : List Char}
    (viable : Viable language text) (wider : ∀ text, language text → other text) :
    Viable other text :=
  viable.imp fun _ => wider _

theorem Viable.of_append {language : List Char → Prop} {text more : List Char}
    (viable : Viable language (text ++ more)) : Viable language text := by
  obtain ⟨rest, good⟩ := viable
  exact ⟨more ++ rest, by rwa [← List.append_assoc]⟩

/-- Of all fronts of the input those up to this length are viable. -/
structure Extent (language : List Char → Prop) (input : List Char) (reach : Nat) : Prop where
  le : reach ≤ input.length
  iff : ∀ n ≤ input.length, n ≤ reach ↔ Viable language (input.take n)

namespace Extent

variable {language other : List Char → Prop} {input : List Char} {reach : Nat}

/-- The extent is the length of the longest front that is viable. -/
theorem isGreatest (extent : Extent language input reach) :
    IsGreatest {n | n ≤ input.length ∧ Viable language (input.take n)} reach :=
  ⟨⟨extent.le, (extent.iff reach extent.le).mp (Nat.le_refl reach)⟩,
    fun n viable => (extent.iff n viable.1).mpr viable.2⟩

/-- A text at the front that belongs to the language is within its extent. -/
theorem le_of_mem {text rest : List Char} (extent : Extent language (text ++ rest) reach)
    (good : language text) : text.length ≤ reach := by
  refine (extent.iff text.length (by simp)).mpr ⟨[], ?_⟩
  simpa using good

/-- The empty text makes no difference where there are other texts. -/
theorem congr (extent : Extent language input reach)
    (same : ∀ text, text ≠ [] → (language text ↔ other text)) (some : ∃ text, other text) :
    Extent other input reach := by
  refine ⟨extent.le, fun n le => ?_⟩
  rcases Nat.eq_zero_or_pos n with rfl | pos
  · simpa [Viable] using some
  · rw [extent.iff n le]
    refine exists_congr fun more => same _ fun empty => ?_
    have length := congrArg List.length empty
    rw [List.length_append, List.length_take, List.length_nil] at length
    omega

theorem union {further : Nat} (early : Extent language input reach)
    (late : Extent other input further) :
    Extent (fun text => language text ∨ other text) input (max reach further) := by
  refine ⟨Nat.max_le.mpr ⟨early.le, late.le⟩, fun n le => ?_⟩
  rw [le_max_iff, early.iff n le, late.iff n le]
  exact exists_or.symm

/-- Nothing but the empty text. -/
theorem nil (input : List Char) : Extent (· = []) input 0 := by
  refine ⟨Nat.zero_le _, fun n le => ⟨fun none => ?_, ?_⟩⟩
  · rw [Nat.le_zero.mp none]
    exact ⟨[], rfl⟩
  · rintro ⟨more, empty⟩
    have length := congrArg List.length empty
    rw [List.length_append, List.length_take, List.length_nil] at length
    omega

/-- One text only. -/
theorem single (text input : List Char) : Extent (· = text) input (Scan.agreeing text input) := by
  induction text generalizing input with
  | nil =>
    have none : Scan.agreeing [] input = 0 := by cases input <;> rfl
    rw [none]
    refine ⟨Nat.zero_le _, fun n le => ?_⟩
    change n ≤ 0 ↔ input.take n <+: []
    rw [List.prefix_nil, List.take_eq_nil_iff, Nat.le_zero]
    refine ⟨.inl, fun empty => empty.elim id fun empty => ?_⟩
    simpa [empty] using le
  | cons c text ih =>
    cases input with
    | nil => exact ⟨Nat.le_refl 0, fun n le => ⟨fun _ => ⟨c :: text, by simp⟩, fun _ => le⟩⟩
    | cons d input =>
      obtain ⟨bound, iff⟩ := ih input
      rw [Scan.agreeing]
      constructor
      · split <;> simp only [List.length_cons] <;> omega
      · intro n le
        change _ ↔ (d :: input).take n <+: c :: text
        cases n with
        | zero => simp
        | succ n =>
          have shorter : n ≤ input.length := by simpa using le
          rw [List.take_succ_cons, List.cons_prefix_cons]
          have inner : n ≤ Scan.agreeing text input ↔ input.take n <+: text := iff n shorter
          rw [← inner]
          split
          next same => simp [same]
          next differs => simp [differs]

/-- The texts of one character of a class. -/
theorem one {accept : Char → Bool} (inhabited : ∃ c, accept c = true) (input : List Char) :
    Extent (fun text => ∃ c, accept c = true ∧ [c] = text) input (Scan.lead accept input) := by
  obtain ⟨sample, accepted⟩ := inhabited
  have start : Viable (fun text => ∃ c, accept c = true ∧ [c] = text) [] :=
    ⟨[sample], sample, accepted, rfl⟩
  cases input with
  | nil =>
    refine ⟨Nat.le_refl 0, fun n le => ⟨fun _ => ?_, fun _ => le⟩⟩
    rwa [List.take_nil]
  | cons c rest =>
    refine ⟨?_, fun n le => ?_⟩
    · rw [Scan.lead]
      split <;> simp
    · cases n with
      | zero => simpa using start
      | succ n =>
        rw [List.take_succ_cons, Scan.lead]
        constructor
        · intro reached
          split at reached
          next good =>
            have last : n = 0 := by omega
            subst last
            exact ⟨[], c, good, rfl⟩
          next => omega
        · rintro ⟨more, d, good, same⟩
          have length := congrArg List.length same
          simp only [List.length_append, List.length_cons, List.length_take, List.length_nil]
            at length le
          rw [← (List.cons.inj same).1, if_pos good]
          omega

/-- The rows of characters of a class. -/
theorem row (accept : Char → Bool) (input : List Char) :
    Extent (fun text => ∀ c ∈ text, accept c = true) input (input.takeWhile accept).length := by
  have front := List.takeWhile_prefix accept (l := input)
  refine ⟨front.length_le, fun n le => ⟨fun reached => ?_, ?_⟩⟩
  · refine ⟨[], fun c among => ?_⟩
    rw [List.append_nil, ← List.takeWhile_append_dropWhile (p := accept) (l := input),
      List.take_append_of_le_length reached] at among
    exact List.all_eq_true.mp List.all_takeWhile c (List.mem_of_mem_take among)
  · rintro ⟨more, all⟩
    have taken : (input.take n ++ input.drop n).takeWhile accept =
        input.take n ++ (input.drop n).takeWhile accept :=
      List.takeWhile_append_of_pos fun c among => all c (List.mem_append_left more among)
    rw [List.take_append_drop] at taken
    rw [taken, List.length_append, List.length_take, Nat.min_eq_left le]
    exact Nat.le_add_right _ _

end Extent

/-! ### Splitting texts -/

/-- A text of one language and then one of another. -/
def Joined (first second : List Char → Prop) (text : List Char) : Prop :=
  ∃ early late, first early ∧ second late ∧ early ++ late = text

theorem exists_joined {first second : List Char → Prop} (early : ∃ text, first text)
    (late : ∃ text, second text) : ∃ text, Joined first second text := by
  obtain ⟨front, isFirst⟩ := early
  obtain ⟨back, isSecond⟩ := late
  exact ⟨front ++ back, front, back, isFirst, isSecond, rfl⟩

theorem exists_single {accept : Char → Bool} (inhabited : ∃ c, accept c = true) :
    ∃ text, ∃ c, accept c = true ∧ [c] = text := by
  obtain ⟨c, accepted⟩ := inhabited
  exact ⟨[c], c, accepted, rfl⟩

/-- Texts of the whole language consist of a text of the intake and another one, and they can be
split in front of the other one so that the first one has to be taken. -/
structure Intake.Leads (intake : Intake) (later whole : List Char → Prop) : Prop where
  exists_later : ∃ text, later text
  join : ∀ {early late}, intake.may early → later late → whole (early ++ late)
  split : ∀ {text}, whole text → text ≠ [] → ∃ early late, intake.may early ∧ later late ∧
    early ++ late = text ∧ ∀ c tail, late = c :: tail → ∀ rest, intake.must early (c :: rest)

namespace Intake.Leads

variable {intake : Intake} {later whole : List Char → Prop} {input text rest : List Char}
  {reach further : Nat}

theorem viable_of_first (leads : intake.Leads later whole) (viable : Viable intake.may text) :
    Viable whole text := by
  obtain ⟨more, good⟩ := viable
  obtain ⟨late, other⟩ := leads.exists_later
  exact ⟨more ++ late, by rw [← List.append_assoc]; exact leads.join good other⟩

theorem viable_of_second (leads : intake.Leads later whole) (good : intake.may text)
    (viable : Viable later rest) : Viable whole (text ++ rest) := by
  obtain ⟨more, other⟩ := viable
  exact ⟨more, by rw [List.append_assoc]; exact leads.join good other⟩

/-- A viable text is viable for the first language already, or it goes on where a first text has to
be taken. -/
theorem cut (leads : intake.Leads later whole) (viable : Viable whole text) (some : text ≠ []) :
    Viable intake.may text ∨ ∃ early c tail, text = early ++ c :: tail ∧
      (∀ rest, intake.must early (c :: rest)) ∧ Viable later (c :: tail) := by
  obtain ⟨more, good⟩ := viable
  obtain ⟨early, late, first, second, same, must⟩ := leads.split good (by simp [some])
  rcases List.append_eq_append_iff.mp same with ⟨left, rfl, rfl⟩ | ⟨left, rfl, rfl⟩
  · cases left with
    | nil => exact .inl ⟨[], by simpa using first⟩
    | cons c tail => exact .inr ⟨early, c, tail, rfl, must c _ rfl, more, second⟩
  · exact .inl ⟨left, first⟩

/-- Where the first text is missing, the second one cannot be looked for. -/
theorem extent_missed (leads : intake.Leads later whole) (suits : intake.Suits input none)
    (extent : Extent intake.may input reach) : Extent whole input reach := by
  refine ⟨extent.le, fun n le => ⟨fun within => ?_, fun viable => ?_⟩⟩
  · exact leads.viable_of_first ((extent.iff n le).mp within)
  · rcases Nat.eq_zero_or_pos n with rfl | pos
    · exact Nat.zero_le _
    have some : input.take n ≠ [] := by
      rw [← List.length_pos_iff, List.length_take]
      omega
    rcases leads.cut viable some with first | ⟨early, c, tail, front, must, _⟩
    · exact (extent.iff n le).mpr first
    · -- The first text would have been found.
      have whole : input = early ++ (c :: (tail ++ input.drop n)) := by
        rw [← List.cons_append, ← List.append_assoc, ← front, List.take_append_drop]
      exact absurd whole (suits.absent (must _))

/-- Where the first text was taken, the second one is looked for after it. -/
theorem extent_found (leads : intake.Leads later whole)
    (suits : intake.Suits (text ++ rest) (some text))
    (early : Extent intake.may (text ++ rest) reach) (late : Extent later rest further) :
    Extent whole (text ++ rest) (max reach (text.length + further)) := by
  obtain ⟨good, _⟩ := suits.may text rfl
  have bound := early.le
  have within := late.le
  rw [List.length_append] at bound
  refine ⟨by rw [List.length_append]; omega, fun n le => ⟨fun reached => ?_, fun viable => ?_⟩⟩
  · rcases le_max_iff.mp reached with first | second
    · exact leads.viable_of_first ((early.iff n le).mp first)
    · rw [List.take_append]
      rcases Nat.le_total n text.length with short | long
      · -- What is a front of the first text goes on with the rest of it.
        rw [Nat.sub_eq_zero_of_le short, List.take_zero, List.append_nil]
        have whole : Viable whole (text.take n ++ text.drop n) := by
          rw [List.take_append_drop]
          exact leads.viable_of_first ⟨[], by simpa using good⟩
        exact whole.of_append
      · rw [List.take_of_length_le long]
        exact leads.viable_of_second good ((late.iff _ (by omega)).mp (by omega))
  · rcases Nat.eq_zero_or_pos n with rfl | pos
    · exact Nat.zero_le _
    have some : (text ++ rest).take n ≠ [] := by
      rw [← List.length_pos_iff, List.length_take]
      omega
    rcases leads.cut viable some with first | ⟨begun, c, tail, front, must, second⟩
    · exact le_max_of_le_left ((early.iff n le).mpr first)
    · -- The text was cut where the first scan has stopped.
      have whole : text ++ rest = begun ++ (c :: (tail ++ (text ++ rest).drop n)) := by
        rw [← List.cons_append, ← List.append_assoc, ← front, List.take_append_drop]
      cases suits.must begun _ (must _) whole
      -- What is viable of the rest has the length that is left.
      have left : rest = c :: tail ++ (text ++ rest).drop n := List.append_cancel_left whole
      have length := congrArg List.length front
      rw [List.length_take, Nat.min_eq_left le, List.length_append] at length
      have same : rest.take (c :: tail).length = c :: tail := by
        nth_rewrite 1 [left]
        exact List.take_left
      have reached := (late.iff (c :: tail).length ?_).mpr (by rwa [same])
      · exact le_max_of_le_right (by omega)
      · rw [left, List.length_append]
        exact Nat.le_add_right _ _

end Intake.Leads

/-- Behind a text of the intake no text of the other language goes on. -/
def Intake.Outruns (intake : Intake) (other : List Char → Prop) : Prop :=
  ∀ text rest n, intake.may text → n ≤ (text ++ rest).length →
    Viable other ((text ++ rest).take n) → n ≤ text.length

/-- Texts of one character go on behind no text at all. -/
theorem Intake.outruns_of_short {intake : Intake} {other : List Char → Prop}
    (nonempty : ∀ text, intake.may text → text ≠ [])
    (short : ∀ text, other text → text.length ≤ 1) : intake.Outruns other := by
  rintro text rest n good le ⟨more, single⟩
  have some := List.length_pos_iff.mpr (nonempty text good)
  have length := short _ single
  rw [List.length_append, List.length_take, Nat.min_eq_left le] at length
  omega

namespace Intake.Leads

variable {intake : Intake} {language later whole : List Char → Prop} {follow : Char → Bool}

/-- Nothing comes after the texts of the intake. -/
theorem closed (intake : Intake) : intake.Leads (· = []) intake.may where
  exists_later := ⟨[], rfl⟩
  join := by
    rintro early _ good rfl
    rwa [List.append_nil]
  split good _ := ⟨_, [], good, rfl, List.append_nil _, nofun⟩

/-- What comes after a text shows that the text has come to its end. -/
theorem joined (exists_later : ∃ text, later text)
    (ends : ∀ early c tail, intake.may early → later (c :: tail) →
      ∀ rest, intake.must early (c :: rest)) : intake.Leads later (Joined intake.may later) where
  exists_later := exists_later
  join first second := ⟨_, _, first, second, rfl⟩
  split good _ := by
    obtain ⟨early, late, first, second, same⟩ := good
    refine ⟨early, late, first, second, same, ?_⟩
    rintro c tail rfl
    exact ends early c tail first second

theorem joined_of (exists_later : ∃ text, later text)
    (heads : ∀ c tail, later (c :: tail) → follow c = false) :
    (Intake.of language (Scan.Spares follow)).Leads later (Joined language later) :=
  joined exists_later fun _ c tail first second rest =>
    ⟨first, .cons (heads c tail second) rest⟩

theorem joined_always (exists_later : ∃ text, later text) :
    (Intake.always language).Leads later (Joined language later) :=
  joined exists_later fun _ _ _ first _ _ => ⟨first, trivial⟩

end Intake.Leads

/-- A text that has to be taken whatever comes after it can be split off anywhere. -/
theorem Intake.Leads.of_always {language later whole : List Char → Prop}
    (exists_later : ∃ text, later text)
    (join : ∀ early late, language early → later late → whole (early ++ late))
    (split : ∀ text, whole text → text ≠ [] →
      ∃ early late, language early ∧ later late ∧ early ++ late = text) :
    (Intake.always language).Leads later whole where
  exists_later := exists_later
  join := join _ _
  split good some := by
    obtain ⟨early, late, first, second, same⟩ := split _ good some
    exact ⟨early, late, first, second, same, fun _ _ _ _ => ⟨first, trivial⟩⟩

/-- What makes up the texts of a repetition that still needs so many rounds. -/
structure Intake.Rounds (body between : Intake) (row : Nat → List Char → Prop) : Prop where
  leads : ∀ needed, body.Leads (Joined between.may (row (needed - 1))) (row needed)
  skips : ∀ needed, between.Leads (row needed) (Joined between.may (row needed))

/-- In an atomic repetition nothing is skipped between the rounds. -/
theorem Intake.Rounds.of_atomic {body : Intake} {row : Nat → List Char → Prop}
    (leads : ∀ needed, body.Leads (row (needed - 1)) (row needed)) :
    body.Rounds (.always (· = [])) row := by
  have same : ∀ needed, Joined (Intake.always (· = [])).may (row needed) = row needed := by
    intro needed
    funext text
    simp [Joined, Intake.always, Intake.of]
  refine ⟨fun needed => ?_, fun needed => ?_⟩
  · rw [same]
    exact leads needed
  · exact .joined_always (leads (needed + 1)).exists_later

end Peg
