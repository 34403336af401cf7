import Peg.Engine.Parse
import Peg.Proofs.Machine.Limits
import Peg.Proofs.Parse.Reports

/-!
# The limit of repetitions in a parse

A repetition that meets the limit fails like any other expression, and what it is part of may take
that failure up: with the limit, another alternative may match than without it. That is the only
way in which the limit changes a tree. In a parse in which no such failure is taken up, a repetition
that meets the limit shows as an error; and a tree that is answered is answered without the limit
as well, in as many moves.
-/
namespace Peg

open Machine (Configuration Reaches)

variable {env : Env} {fuel : Nat} {expr : Expr} {before after : State} {found : Match}

/-- What the machine goes through in a parse: while it matches the expression, and while it skips
what may stand behind. -/
inductive Visits (env : Env) (fuel : Nat) (expr : Expr) (before : State) : Configuration → Prop
  | main {config : Configuration} :
    Reaches env (.initial expr (.start env.input) false before) config →
      Visits env fuel expr before config
  | rest {config : Configuration} {found : Match} {middle : State} :
    run env fuel expr (.start env.input) false before = .done (some found) middle →
      env.isAtomic expr = false → Reaches env (.initial .ignored found.stop false middle) config →
        Visits env fuel expr before config

/-- In a parse, a repetition met the limit and its failure was passed on to the end. -/
def Exceeds (env : Env) (fuel : Nat) (expr : Expr) (before : State) : Prop :=
  ∃ config, Visits env fuel expr before config ∧ config.meetsLimit env = true ∧
    config.absorbsLimit env = false

theorem isAtomicWithin_unlimited (depth : Nat) (expr : Expr) :
    env.unlimited.isAtomicWithin depth expr = env.isAtomicWithin depth expr := by
  induction depth generalizing expr with
  | zero => cases expr <;> rfl
  | succ depth ih => cases expr <;> simp only [Env.isAtomicWithin, ih] <;> rfl

theorem isAtomic_unlimited (expr : Expr) : env.unlimited.isAtomic expr = env.isAtomic expr :=
  isAtomicWithin_unlimited _ expr

/-- Matching without a limit ends in the same match, if no failure at the limit was taken up. -/
theorem run_unlimited {start : Position} {atomic : Bool}
    (kept : ∀ config, Reaches env (.initial expr start atomic before) config →
      config.absorbsLimit env = false)
    (ended : run env fuel expr start atomic before = .done (some found) after) :
    run env.unlimited fuel expr start atomic before = .done (some found) after :=
  Halt.settle_eq_done_iff.mpr (Configuration.run_unlimited kept (Halt.settle_eq_done_iff.mp ended))

/-- No repetition is matched in a terminal. -/
theorem absorbsLimit_of_terminal {leaf : Terminal} {start : Position} {atomic : Bool}
    {config : Configuration}
    (reaches : Reaches env (.initial (.terminal leaf) start atomic before) config) :
    config.absorbsLimit env = false := by
  rcases reaches.cases_head with rfl | ⟨next, ⟨taken, made⟩, reaches⟩
  · rfl
  · cases taken
    obtain ⟨result, middle, _, ended⟩ := Action.bind_eq_done made
    cases ended
    rcases reaches.cases_head with rfl | ⟨_, ⟨taken, _⟩, _⟩
    · cases result <;> rfl
    · cases taken

/-- A parse that answers a match goes through three stages: the expression, what may stand behind
it, and the end of the input. -/
theorem parse_eq_ok :
    parse env fuel expr before = .done (.ok found) after ↔
      ∃ first middle stop later last,
        run env fuel expr (.start env.input) false before = .done (some first) middle ∧
        matchRest env fuel expr first.stop middle = .done stop later ∧
        run env fuel (.terminal .endOfInput) stop false later = .done (some last) after ∧
        found = ⟨stop, first.node⟩ := by
  constructor
  · intro parsed
    obtain ⟨partly, middle, began, went⟩ := Action.bind_eq_done parsed
    obtain ⟨result, early, ran, answered⟩ := Action.bind_eq_done began
    cases result with
    | none =>
      cases (reportFailure_eq_done answered).1
      cases went
    | some first =>
      cases answered
      obtain ⟨stop, later, skipped, ended⟩ := Action.bind_eq_done went
      obtain ⟨result, last, closed, answered⟩ := Action.bind_eq_done ended
      cases result with
      | none => cases (reportFailure_eq_done answered).1
      | some final =>
        cases answered
        exact ⟨first, middle, stop, later, final, ran, skipped, closed, rfl⟩
  · rintro ⟨first, middle, stop, later, last, ran, skipped, closed, rfl⟩
    have partly : parsePartial env fuel expr before = .done (.ok first) middle :=
      Action.bind_of_done ran
    refine (Action.bind_of_done partly).trans ?_
    exact (Action.bind_of_done skipped).trans (Action.bind_of_done closed)

theorem matchRest_of_isAtomic (root : env.isAtomic expr = true) (fuel : Nat) (here : Position) :
    matchRest env fuel expr here = pure here := by
  rw [matchRest, root]
  rfl

/-- Behind a root that is not atomic, ignored text is matched. -/
theorem matchRest_eq_done (root : env.isAtomic expr = false) {here stop : Position} :
    matchRest env fuel expr here before = .done stop after ↔
      ∃ gap, run env fuel .ignored here false before = .done (some gap) after ∧
        stop = gap.stop := by
  rw [matchRest, root]
  constructor
  · intro skipped
    obtain ⟨result, middle, ran, ended⟩ := Action.bind_eq_done skipped
    cases ended
    have finishes : Finishes env .ignored here false before result after := ⟨fuel, ran⟩
    obtain ⟨gap, rfl⟩ := Option.isSome_iff_exists.mp finishes.isSome_of_ignored
    exact ⟨gap, ran, rfl⟩
  · rintro ⟨gap, ran, rfl⟩
    exact Action.bind_of_done ran

/-! ### Main result -/

section Main

variable (env : Env) (fuel : Nat) (expr : Expr) (before : State)

theorem parse_unlimited (kept : ∀ config, Visits env fuel expr before config →
      config.absorbsLimit env = false)
    (parsed : parse env fuel expr before = .done (.ok found) after) :
    parse env.unlimited fuel expr before = .done (.ok found) after := by
  obtain ⟨first, middle, stop, later, last, ran, skipped, closed, rfl⟩ := parse_eq_ok.mp parsed
  refine parse_eq_ok.mpr ⟨first, middle, stop, later, last, ?_, ?_, ?_, rfl⟩
  · exact run_unlimited (fun config reaches => kept config (.main reaches)) ran
  · cases root : env.isAtomic expr with
    | true =>
      rw [matchRest_of_isAtomic root] at skipped
      rwa [matchRest_of_isAtomic ((isAtomic_unlimited expr).trans root)]
    | false =>
      obtain ⟨gap, skipping, rfl⟩ := (matchRest_eq_done root).mp skipped
      refine (matchRest_eq_done ((isAtomic_unlimited expr).trans root)).mpr ⟨gap, ?_, rfl⟩
      exact run_unlimited (fun config reaches => kept config (.rest ran root reaches)) skipping
  · exact run_unlimited (fun config reaches => absorbsLimit_of_terminal reaches) closed

theorem parse_ne_of_exceeds (exceeds : Exceeds env fuel expr before) (found : Match)
    (after : State) : parse env fuel expr before ≠ .done (.ok found) after := by
  intro parsed
  obtain ⟨first, middle, stop, later, last, ran, skipped, closed, rfl⟩ := parse_eq_ok.mp parsed
  obtain ⟨config, visited, met, spared⟩ := exceeds
  have passing : config.frames.tail.any Frame.recovers = false := by
    simpa [Configuration.absorbsLimit, met] using spared
  have fails (found : Match) (after : State) {start : Configuration}
      (reaches : Reaches env start config) : start.run env fuel ≠ .answered (some found) after :=
    Configuration.run_ne_of_reaches reaches
      (fun fuel => Configuration.run_ne_of_meetsLimit met passing fuel found after)
      (by rintro ⟨⟩) fuel
  cases visited with
  | main reaches => exact fails first middle reaches (Halt.settle_eq_done_iff.mp ran)
  | rest began root reaches =>
    cases began.symm.trans ran
    obtain ⟨gap, skipping, rfl⟩ := (matchRest_eq_done root).mp skipped
    exact fails gap later reaches (Halt.settle_eq_done_iff.mp skipping)

end Main

/-- The limit makes no other tree of a text than there would be without it, unless a repetition met
it where something took its failure up. If a repetition met it anywhere else, there is no tree. -/
theorem limit_shows_as_error (env : Env) (fuel : Nat) (expr : Expr) (before : State) :
    (∀ found after, parse env fuel expr before = .done (.ok found) after →
        (∀ config, Visits env fuel expr before config → config.absorbsLimit env = false) →
          parse env.unlimited fuel expr before = .done (.ok found) after) ∧
      (Exceeds env fuel expr before →
        ∀ found after, parse env fuel expr before ≠ .done (.ok found) after) :=
  ⟨fun _ _ parsed kept => parse_unlimited env fuel expr before kept parsed,
    parse_ne_of_exceeds env fuel expr before⟩

/-- Letters with blanks in between, as many as the limit allows, are matched by the first
alternative. One more letter in a row, where nothing else is tried, is an error. -/
theorem limit_shows_as_error_of_letters :
    let letters : Expr := .rep (.literal "a") 1 none
    let choice : Expr := .choice letters [.literal "a"]
    let blanks : Env := { input := ⟨0, #['a', ' ', 'a']⟩, whitespace := some (.literal " "),
                          repeatLimit := some 2 }
    let short : Env := { blanks with repeatLimit := some 1 }
    (∃ found after, parse blanks 60 choice {} = .done (.ok found) after ∧
      parse blanks.unlimited 60 choice {} = .done (.ok found) after) ∧
    ∀ found after, parse short 60 letters {} ≠ .done (.ok found) after := by
  intro letters choice blanks short
  constructor
  · refine ⟨_, _, rfl, ?_⟩
    refine (limit_shows_as_error blanks 60 choice {}).1 _ _ rfl fun config visited => ?_
    have spared {start : Configuration} {result : Option Match} {after : State}
        (ended : start.run blanks 60 = .answered result after)
        (all : (start.trail blanks 60).all (fun config => !config.absorbsLimit blanks) = true)
        (reaches : Reaches blanks start config) : config.absorbsLimit blanks = false := by
      have passed := (Configuration.reaches_iff_mem_trail ended).mp reaches
      simpa using List.all_eq_true.mp all config passed
    cases visited with
    | main reaches => exact spared rfl rfl reaches
    | rest began _ reaches =>
      cases began
      exact spared rfl rfl reaches
  · apply (limit_shows_as_error short 60 letters {}).2
    have met : ((Configuration.initial letters (.start short.input) false {}).trail short 60).any
        (fun config => config.meetsLimit short && !config.absorbsLimit short) = true := rfl
    obtain ⟨config, passed, met⟩ := List.any_eq_true.mp met
    rw [Bool.and_eq_true, Bool.not_eq_true'] at met
    exact ⟨config, .main (Configuration.reaches_of_mem_trail passed), met⟩

/-- Two letters are a repetition without a limit. With the limit of one it fails, and the choice
goes on to the literal. -/
theorem choice_absorbs_limit :
    let expr : Expr := .choice (.rep (.literal "a") 0 none) [.literal "aa"]
    let env : Env := { input := ⟨0, #['a', 'a']⟩, repeatLimit := some 1 }
    ∃ found after other later, parse env 30 expr {} = .done (.ok found) after ∧
      parse env.unlimited 30 expr {} = .done (.ok other) later ∧ found.node ≠ other.node :=
  ⟨_, _, _, _, rfl, rfl, nofun⟩

end Peg
