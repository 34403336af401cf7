import Peg.Proofs.Scan.Takes

/-!
# What a scan may take and what it has to

An intake says of which kind the texts are that a scan may take, and which ones it has to take in
front of which rest. The two are told apart because a greedy scan takes a text only if the rest does
not go on with more of the kind: of a number all digits are taken. A scan recognizes an intake if it
comes to an outcome on every input, takes nothing that it may not, and everything that it has to.

Intakes are composed as expressions are, so that the intake of an expression is read off the
expression; what a text of it looks like is then a matter of characters alone. Sizes bound the
inputs, so that what recursive rules recognize can be proved by induction.
-/
namespace Peg

/-- Texts that may be taken, and texts that have to be taken in front of a rest. -/
structure Intake where
  may : List Char → Prop
  must : (text rest : List Char) → Prop

namespace Intake

/-- The texts of a language, wherever the rest is one that may follow them. -/
def of (language follow : List Char → Prop) : Intake :=
  ⟨language, fun text rest => language text ∧ follow rest⟩

/-- The texts of a language, whatever the rest is. -/
def always (language : List Char → Prop) : Intake := of language fun _ => True

/-- One text and then another. -/
def followedBy (first second : Intake) : Intake where
  may text := ∃ early late, first.may early ∧ second.may late ∧ early ++ late = text
  must text rest :=
    ∃ early late, first.must early (late ++ rest) ∧ second.must late rest ∧ early ++ late = text

theorem always_followedBy (first second : List Char → Prop) :
    (always first).followedBy (always second) =
      always fun text => ∃ early late, first early ∧ second late ∧ early ++ late = text := by
  simp [followedBy, always, of]

theorem must_append {first second : Intake} {early late rest : List Char}
    (due : first.must early (late ++ rest)) (more : second.must late rest) :
    (first.followedBy second).must (early ++ late) rest :=
  ⟨early, late, due, more, rfl⟩

/-- Nothing of the intake stands at the front of the input. -/
def Absent (intake : Intake) (input : List Char) : Prop :=
  ∀ text rest, intake.may text → input ≠ text ++ rest

/-- A text of one intake, or a text of another one where there is none of the first. -/
def orElse (first second : Intake) : Intake where
  may text := first.may text ∨ second.may text
  must text rest := first.must text rest ∨ (first.Absent (text ++ rest) ∧ second.must text rest)

/-- All texts of a row have to be taken, each in front of the next one. -/
def MustEach (intake : Intake) : (texts : List (List Char)) → (rest : List Char) → Prop
  | [], _ => True
  | text :: texts, rest => intake.must text (texts.flatten ++ rest) ∧ MustEach intake texts rest

theorem mustEach_of_forall {intake : Intake} {texts : List (List Char)}
    (must : ∀ text ∈ texts, ∀ rest, intake.must text rest) (rest : List Char) :
    intake.MustEach texts rest := by
  induction texts with
  | nil => trivial
  | cons text texts ih =>
    obtain ⟨first, others⟩ := List.forall_mem_cons.mp must
    exact ⟨first _, ih others⟩

/-- Texts that are each made of something are made of a row of such things. -/
theorem exists_map {α : Type} {good : α → Prop} {make : α → List Char} {texts : List (List Char)}
    (each : ∀ text ∈ texts, ∃ thing, good thing ∧ make thing = text) :
    ∃ things : List α, (∀ thing ∈ things, good thing) ∧ things.map make = texts := by
  induction texts with
  | nil => exact ⟨[], by simp, rfl⟩
  | cons text texts ih =>
    obtain ⟨⟨thing, fine, rfl⟩, others⟩ := List.forall_mem_cons.mp each
    obtain ⟨things, all, rfl⟩ := ih others
    exact ⟨thing :: things, List.forall_mem_cons.mpr ⟨fine, all⟩, rfl⟩

/-- Whether a limit, if there is one, allows for so many. -/
def Allows (limit : Option Nat) (count : Nat) : Prop := ∀ most, limit = some most → count ≤ most

/-- A row of texts, each with a gap after it, that brings their number from `count` to at least
`min` and within the limit. After the row there is no more of the texts. -/
def row (body gap : Intake) (min : Nat) (limit : Option Nat) (count : Nat) : Intake where
  may text := ∃ items : List (List Char), (∀ item ∈ items, (body.followedBy gap).may item) ∧
    min ≤ count + items.length ∧ Allows limit (count + items.length) ∧ items.flatten = text
  must text rest := ∃ items : List (List Char), (body.followedBy gap).MustEach items rest ∧
    min ≤ count + items.length ∧ Allows limit (count + items.length) ∧ body.Absent rest ∧
      items.flatten = text

/-- The outcome is right for the intake. -/
structure Suits (intake : Intake) (input : List Char) (outcome : Option (List Char)) : Prop where
  may : ∀ text, outcome = some text → intake.may text ∧ ∃ rest, input = text ++ rest
  must : ∀ text rest, intake.must text rest → input = text ++ rest → outcome = some text

theorem Suits.absent {intake : Intake} {input : List Char} (suits : intake.Suits input none)
    {text rest : List Char} (must : intake.must text rest) : input ≠ text ++ rest :=
  fun front => nomatch suits.must text rest must front

end Intake

namespace Scan

/-- On all inputs shorter than the size, the scan comes to an outcome that is right. -/
def Recognizes (env : Env) (size : Nat) (scan : Scan) (intake : Intake) : Prop :=
  ∀ input, input.length < size → ∃ outcome, scan.Takes env input outcome ∧
    intake.Suits input outcome

namespace Recognizes

variable {env : Env} {size less : Nat} {scan inner first ended more : Scan}
  {intake other later : Intake}

theorem refine (recognizes : Recognizes env size inner intake) (refines : scan.Refines inner) :
    Recognizes env size scan intake := by
  intro input short
  obtain ⟨outcome, takes, suits⟩ := recognizes input short
  exact ⟨outcome, takes.refine refines, suits⟩

theorem unfold (recognizes : Recognizes env size inner intake) (unfolds : scan.Unfolds inner) :
    Recognizes env size scan intake := by
  intro input short
  obtain ⟨outcome, takes, suits⟩ := recognizes input short
  exact ⟨outcome, takes.unfold unfolds, suits⟩

theorem smaller (recognizes : Recognizes env size scan intake) (le : less ≤ size) :
    Recognizes env less scan intake :=
  fun input short => recognizes input (Nat.lt_of_lt_of_le short le)

/-- What may be taken can be widened, and what has to be taken can be narrowed. -/
theorem weaken (recognizes : Recognizes env size scan intake)
    (may : ∀ text, intake.may text → other.may text)
    (must : ∀ text rest, other.must text rest → intake.must text rest) :
    Recognizes env size scan other := by
  intro input short
  obtain ⟨outcome, takes, suits⟩ := recognizes input short
  refine ⟨outcome, takes, ⟨fun text taken => ?_, fun text rest due => ?_⟩⟩
  · obtain ⟨allowed, front⟩ := suits.may text taken
    exact ⟨may text allowed, front⟩
  · exact suits.must text rest (must text rest due)

theorem always_congr {language same : List Char → Prop}
    (recognizes : Recognizes env size scan (.always language))
    (iff : ∀ text, language text ↔ same text) : Recognizes env size scan (.always same) := by
  rwa [← funext fun text => propext (iff text)]

/-- What has to be taken whatever the rest is has to be taken in front of some rests. -/
theorem before {language : List Char → Prop}
    (recognizes : Recognizes env size scan (.always language)) (follow : List Char → Prop) :
    Recognizes env size scan (.of language follow) :=
  recognizes.weaken (fun _ => id) fun _ _ due => ⟨due.1, trivial⟩

/-- There is no input that is shorter than the empty one. -/
theorem zero (env : Env) (scan : Scan) (intake : Intake) : Recognizes env 0 scan intake :=
  fun _ short => absurd short (Nat.not_lt_zero _)

theorem failing : Recognizes env size failing (.always fun _ => False) := by
  intro input _
  refine ⟨none, failing_takes, nofun, ?_⟩
  rintro text rest ⟨impossible, _⟩
  exact impossible.elim

theorem standing : Recognizes env size standing (.always (· = [])) := by
  intro input _
  refine ⟨some [], standing_takes, ?_, ?_⟩
  · rintro text ⟨⟩
    exact ⟨rfl, input, rfl⟩
  · rintro text rest ⟨rfl, _⟩ _
    rfl

/-- After the first text there is less of the input left for the second one. -/
theorem followedBy (early : Recognizes env size first intake)
    (late : Recognizes env less more later)
    (room : ∀ text, intake.may text → size ≤ text.length + less) :
    Recognizes env size (branch first Scan.failing more) (intake.followedBy later) := by
  intro input short
  obtain ⟨outcome, takes, suits⟩ := early input short
  cases outcome with
  | none =>
    refine ⟨none, takes.branch_missed failing_takes, nofun, ?_⟩
    rintro text rest ⟨before, after, must, _, rfl⟩ front
    rw [List.append_assoc] at front
    exact absurd front (suits.absent must)
  | some before =>
    obtain ⟨allowed, rest, rfl⟩ := suits.may before rfl
    -- What is left is short enough for the second scan.
    have shorter : rest.length < less := by
      have bound := room before allowed
      rw [List.length_append] at short
      omega
    obtain ⟨outcome, goesOn, fits⟩ := late rest shorter
    refine ⟨_, takes.branch_found goesOn, ?_, ?_⟩
    · intro text taken
      obtain ⟨after, rfl, rfl⟩ := Option.map_eq_some_iff.mp taken
      obtain ⟨also, final, rfl⟩ := fits.may after rfl
      exact ⟨⟨before, after, allowed, also, rfl⟩, final, (List.append_assoc ..).symm⟩
    · rintro text final ⟨start, after, must, also, rfl⟩ front
      rw [List.append_assoc] at front
      cases suits.must start _ must front
      rw [fits.must after final also (List.append_cancel_left front)]
      rfl

/-- To take nothing more makes no difference. -/
theorem drop_nil (recognizes : Recognizes env size scan (intake.followedBy (.always (· = [])))) :
    Recognizes env size scan intake := by
  refine recognizes.weaken ?_ ?_
  · rintro _ ⟨text, _, allowed, rfl, rfl⟩
    rwa [List.append_nil]
  · intro text rest due
    exact ⟨text, [], due, ⟨rfl, trivial⟩, List.append_nil text⟩

/-- What is left of the input is never longer than the input. -/
theorem keep : ∀ text, intake.may text → size ≤ text.length + size :=
  fun _ _ => Nat.le_add_left size _

theorem orElse (early : Recognizes env size first intake)
    (late : Recognizes env size ended later) :
    Recognizes env size (branch first ended Scan.standing) (intake.orElse later) := by
  intro input short
  obtain ⟨outcome, takes, suits⟩ := early input short
  cases outcome with
  | none =>
    obtain ⟨outcome, goesOn, fits⟩ := late input short
    refine ⟨outcome, takes.branch_missed goesOn, ?_, ?_⟩
    · intro text taken
      obtain ⟨allowed, front⟩ := fits.may text taken
      exact ⟨.inr allowed, front⟩
    · rintro text rest (must | ⟨_, must⟩) front
      · exact absurd front (suits.absent must)
      · exact fits.must text rest must front
  | some text =>
    obtain ⟨allowed, rest, rfl⟩ := suits.may text rfl
    have found : (branch first ended Scan.standing).Takes env (text ++ rest) (some (text ++ [])) :=
      takes.branch_found standing_takes
    rw [List.append_nil] at found
    refine ⟨some text, found, ?_, ?_⟩
    · rintro _ ⟨⟩
      exact ⟨.inl allowed, rest, rfl⟩
    · rintro other final (must | ⟨absent, _⟩) front
      · exact suits.must other final must front
      · -- Nothing of the second intake is due where a text of the first was taken.
        exact absurd front.symm (absent text rest allowed)

theorem settled (recognizes : Recognizes env size scan intake) :
    Recognizes env size (settled scan) intake := by
  intro input short
  obtain ⟨outcome, takes, suits⟩ := recognizes input short
  exact ⟨outcome, takes.settled, suits⟩

/-! ### Expressions -/

section Expressions

variable {atomic : Bool} {expr body : Expr} {rest : List Expr}

/-- What follows a text that is not empty need only be recognized on shorter inputs. -/
theorem seq_shorter (early : Recognizes env size (Scan.expr env atomic expr) intake)
    (late : Recognizes env less (items env atomic rest) later)
    (room : ∀ text, intake.may text → size ≤ text.length + less) :
    Recognizes env size (Scan.expr env atomic (.seq expr rest)) (intake.followedBy later) :=
  (early.followedBy late room).unfold seq_unfolds

theorem seq (early : Recognizes env size (Scan.expr env atomic expr) intake)
    (late : Recognizes env size (items env atomic rest) later) :
    Recognizes env size (Scan.expr env atomic (.seq expr rest)) (intake.followedBy later) :=
  seq_shorter early late keep

theorem items_nil : Recognizes env size (items env atomic []) (.always (· = [])) :=
  standing.refine items_nil_refines

theorem items_cons (between : Recognizes env size (gap env atomic) other)
    (early : Recognizes env size (Scan.expr env atomic expr) intake)
    (late : Recognizes env size (items env atomic rest) later) :
    Recognizes env size (items env atomic (expr :: rest))
      (other.followedBy (intake.followedBy later)) :=
  (between.followedBy (early.followedBy late keep) keep).refine items_cons_refines

theorem items_last (between : Recognizes env size (gap env atomic) other)
    (last : Recognizes env size (Scan.expr env atomic expr) intake) :
    Recognizes env size (items env atomic [expr]) (other.followedBy intake) :=
  (between.followedBy (last.followedBy items_nil keep).drop_nil keep).refine items_cons_refines

theorem items_atomic (early : Recognizes env size (Scan.expr env true expr) intake)
    (late : Recognizes env size (items env true rest) later) :
    Recognizes env size (items env true (expr :: rest)) (intake.followedBy later) :=
  (early.followedBy late keep).refine items_atomic_refines

theorem items_atomic_last (last : Recognizes env size (Scan.expr env true expr) intake) :
    Recognizes env size (items env true [expr]) intake :=
  (items_atomic last items_nil).drop_nil

theorem choice (early : Recognizes env size (Scan.expr env atomic expr) intake)
    (late : Recognizes env size (alternatives env atomic rest) later) :
    Recognizes env size (Scan.expr env atomic (.choice expr rest)) (intake.orElse later) :=
  (early.orElse late).unfold choice_unfolds

theorem alternatives_nil :
    Recognizes env size (alternatives env atomic []) (.always fun _ => False) :=
  failing.refine alternatives_nil_refines

theorem alternatives_cons (early : Recognizes env size (Scan.expr env atomic expr) intake)
    (late : Recognizes env size (alternatives env atomic rest) later) :
    Recognizes env size (alternatives env atomic (expr :: rest)) (intake.orElse later) :=
  (early.orElse late).refine alternatives_cons_refines

theorem opt (inner : Recognizes env size (Scan.expr env atomic body) intake) :
    Recognizes env size (Scan.expr env atomic (.opt body)) (intake.orElse (.always (· = []))) :=
  (inner.settled.orElse standing).unfold opt_unfolds

theorem ref {name : String} {target : Expr} (defined : env.rules.lookup name = some target)
    (inner : Recognizes env size (Scan.expr env atomic target) intake) :
    Recognizes env size (Scan.expr env atomic (.ref name)) intake :=
  inner.unfold (ref_unfolds defined)

theorem rule {tag : Nat} {name : String} {kind : RuleKind}
    (inner : Recognizes env size (Scan.expr env (kind.bodyAtomic atomic) body) intake) :
    Recognizes env size (Scan.expr env atomic (.rule tag name kind body)) intake := by
  intro input short
  obtain ⟨outcome, takes, suits⟩ := inner input short
  exact ⟨outcome, takes.rule, suits⟩

/-- Inside what is atomic nothing is skipped. -/
theorem gap_atomic : Recognizes env size (gap env true) (.always (· = [])) := by
  refine standing.refine ?_
  rintro fuel here action rfl
  change Stops true _ (· = some here)
  exact .pure rfl

end Expressions

/-! ### Repetitions -/

section Repetitions

variable {atomic : Bool} {body : Expr} {min count : Nat} {between : Intake}

theorem beyondLimit_eq_none (env : Env) (count : Nat) :
    Clause.beyondLimit env count = none ↔ Intake.Allows env.repeatLimit count := by
  rw [Clause.beyondLimit, Option.filter_eq_none_iff]
  simp [Intake.Allows]

theorem further (skipped : Recognizes env size (gap env atomic) between)
    (later : Intake.Allows env.repeatLimit count →
      Recognizes env size (turn env atomic body min size count)
        (.row intake between min env.repeatLimit count)) :
    Recognizes env size (further env atomic body min size count)
      (between.followedBy (.row intake between min env.repeatLimit count)) := by
  unfold Scan.further
  cases beyond : Clause.beyondLimit env count with
  | none =>
    have room := (beyondLimit_eq_none env count).mp beyond
    exact skipped.followedBy (later room) keep
  | some limit =>
    -- One match too many fails, and no row is that long.
    have full : ∀ more, ¬Intake.Allows env.repeatLimit (count + more) := by
      intro more within
      have room : Intake.Allows env.repeatLimit count :=
        fun most limited => Nat.le_trans (Nat.le_add_right count more) (within most limited)
      cases beyond.symm.trans ((beyondLimit_eq_none env count).mpr room)
    refine failing.weaken (fun _ impossible => impossible.elim) ?_
    rintro text rest ⟨_, _, _, ⟨items, _, _, within, _, _⟩, _⟩
    exact absurd within (full items.length)

theorem closing_takes (input : List Char) :
    (closing min count).Takes env input (if count < min then none else some []) := by
  unfold closing
  split
  · exact failing_takes
  · exact standing_takes

/-- Where there is no match, a row comes to its end. -/
theorem row_suits_nil {input : List Char} (missed : intake.Suits input none)
    (within : Intake.Allows env.repeatLimit count) :
    (Intake.row intake between min env.repeatLimit count).Suits input
      (if count < min then none else some []) := by
  constructor
  · intro text taken
    split at taken
    · cases taken
    next enough =>
      cases taken
      exact ⟨⟨[], by simp, Nat.not_lt.mp enough, within, rfl⟩, input, rfl⟩
  · rintro text rest ⟨items, each, enough, _, _, rfl⟩ front
    cases items with
    | nil => exact if_neg (Nat.not_lt.mpr enough)
    | cons item items =>
      obtain ⟨⟨early, late, must, _, rfl⟩, _⟩ := each
      refine absurd front ?_
      simp only [List.flatten_cons, List.append_assoc]
      exact missed.absent must

/-- A match and what is taken after it make a row. -/
theorem row_suits_cons {text rest : List Char} {outcome : Option (List Char)}
    (found : intake.Suits (text ++ rest) (some text))
    (fits : (between.followedBy
      (.row intake between min env.repeatLimit (count + 1))).Suits rest outcome) :
    (Intake.row intake between min env.repeatLimit count).Suits (text ++ rest)
      (outcome.map (text ++ ·)) := by
  obtain ⟨allowed, _⟩ := found.may text rfl
  constructor
  · intro whole taken
    obtain ⟨after, rfl, rfl⟩ := Option.map_eq_some_iff.mp taken
    obtain ⟨⟨skipped, _, also, ⟨items, each, enough, within, rfl⟩, rfl⟩, final, rfl⟩ :=
      fits.may after rfl
    refine ⟨⟨(text ++ skipped) :: items, ?_, ?_, ?_, ?_⟩, final, (List.append_assoc ..).symm⟩
    · exact List.forall_mem_cons.mpr ⟨⟨text, skipped, allowed, also, rfl⟩, each⟩
    · rw [List.length_cons]
      omega
    · rwa [List.length_cons, Nat.add_comm items.length, ← Nat.add_assoc]
    · rw [List.flatten_cons, List.append_assoc]
  · rintro whole final ⟨items, each, enough, within, absent, rfl⟩ front
    cases items with
    | nil => exact absurd front.symm (absent text rest allowed)
    | cons item items =>
      obtain ⟨⟨early, late, must, also, rfl⟩, each⟩ := each
      simp only [List.flatten_cons, List.append_assoc] at front
      cases found.must early _ must front
      -- The rest of the row is due after the first match.
      rw [List.length_cons] at enough
      rw [List.length_cons, Nat.add_comm items.length, ← Nat.add_assoc] at within
      have row : (Intake.row intake between min env.repeatLimit (count + 1)).must
          items.flatten final := ⟨items, each, by omega, within, absent, rfl⟩
      have goesOn := fits.must (late ++ items.flatten) final ⟨late, _, also, row, rfl⟩
        (by rw [List.append_cancel_left front, List.append_assoc])
      rw [goesOn, Option.map_some, List.flatten_cons, List.append_assoc]

/-- Each match of a repetition makes the input shorter, so that the rounds left are enough. -/
theorem turn (nonempty : ∀ text, intake.may text → text ≠ [])
    (inner : Recognizes env size (Scan.expr env atomic body) intake)
    (skipped : Recognizes env size (gap env atomic) between)
    (within : Intake.Allows env.repeatLimit count) :
    Recognizes env size (turn env atomic body min size count)
      (.row intake between min env.repeatLimit count) := by
  -- The rounds are as many as the size allows, which falls with each match.
  induction size generalizing count with
  | zero => exact zero env _ _
  | succ size ih =>
    intro input short
    obtain ⟨outcome, takes, suits⟩ := inner input short
    cases outcome with
    | none =>
      refine ⟨_, Takes.refine ?_ (turn_refines size count), row_suits_nil suits within⟩
      exact takes.branch_missed (closing_takes input)
    | some text =>
      obtain ⟨allowed, rest, rfl⟩ := suits.may text rfl
      have taken := List.length_pos_iff.mpr (nonempty text allowed)
      have less := Nat.le_add_right size 1
      have gaps := skipped.smaller less
      have shorter : rest.length < size := by
        rw [List.length_append] at short
        omega
      obtain ⟨outcome, goesOn, fits⟩ :=
        gaps.further (ih (inner.smaller less) gaps) rest shorter
      refine ⟨_, Takes.refine ?_ (turn_refines size count), row_suits_cons suits fits⟩
      exact takes.branch_found goesOn

theorem rep (nonempty : ∀ text, intake.may text → text ≠ [])
    (inner : Recognizes env size (Scan.expr env atomic body) intake)
    (skipped : Recognizes env size (gap env atomic) between) :
    Recognizes env size (Scan.expr env atomic (.rep body min none))
      (.row intake between min env.repeatLimit 0) := by
  intro input short
  have rounds : Recognizes env size (Scan.turn env atomic body min size 0) _ :=
    turn nonempty inner skipped fun most _ => Nat.zero_le most
  obtain ⟨outcome, takes, suits⟩ := rounds input short
  exact ⟨outcome, takes.rep size, suits⟩

end Repetitions

end Recognizes

end Scan

end Peg
