import Peg.Proofs.Eval.Fuel
import Peg.Proofs.Scan.Extent
import Peg.Proofs.Scan.Parsing

/-!
# Where parses are reported to fail

A parse of a whole text that fails reports the furthest failure. Matching the root gets as far as
the front of the text is viable; if it succeeds, the ignored text after it is skipped in silence,
and where there is more text then, its end is what was expected. So what is reported is how far the
text can go on as a text of the root followed by ignored text.
-/
namespace Peg.Scan

variable {env : Env} {root skipper : Expr} {accept : Char → Bool} {input text rest : List Char}
  {atomic : Bool} {outcome : Option (List Char)} {reach : Nat}

/-- The start and the end of the text are matched or missed where they are looked for. -/
theorem boundary_attains {leaf : Terminal} (boundary : leaf = .startOfInput ∨ leaf = .endOfInput)
    (input : List Char) : (expr env atomic (.terminal leaf)).Attains env input 0 := by
  refine (Eventually.above 0).succ fun fuel _ here action whole front ways => ?_
  rw [ways]
  rcases boundary with rfl | rfl
  · simp only [eval, Terminal.attempt]
    split
    · exact found_attains .soi "" rfl
    · exact missed_attains whole _ here.offset_le rfl
  · simp only [eval, Terminal.attempt]
    split
    · exact found_attains .eoi "" rfl
    · exact missed_attains whole _ here.offset_le rfl

/-- What the machine records is what matching records, given enough fuel. -/
theorem run_accounts_of_eval {here : Position}
    {holds : Option Match → List Recording → Prop} (accounts : Eventually fun fuel =>
      Action.Accounts env.input (eval env fuel root here atomic) holds) (fuel : Nat) :
    Action.Accounts env.input (run env fuel root here atomic) holds := by
  intro before listens
  by_cases endless : run env fuel root here atomic before = .exhausted
  · rw [endless]
    trivial
  · -- Where the machine ends, the evaluation ends in the same way, and with more fuel too.
    obtain ⟨enough, same⟩ := Machine.eval_of_run endless
    obtain ⟨least, accounts⟩ := accounts
    have more := Eval.eval_approximates env (Nat.le_max_left enough least) root here atomic before
    rcases more with ended | ended
    · exact absurd (same.symm.trans ended) endless
    · rw [← same, ← ended]
      exact accounts _ (Nat.le_max_right enough least) before listens

section Machine

variable {here : Position} (whole : here.input = env.input) (front : here.rest = input)

include whole front

theorem Attains.of_run (attains : (expr env atomic root).Attains env input reach) (fuel : Nat) :
    Action.Accounts env.input (run env fuel root here atomic) fun result gained =>
      attained gained result = here.offset + reach :=
  run_accounts_of_eval (attains.mono fun _ accounts => accounts here _ whole front rfl) fuel

theorem Attains.of_run_with_outcome (takes : (expr env atomic root).Takes env input outcome)
    (attains : (expr env atomic root).Attains env input reach) (fuel : Nat) :
    Action.Accounts env.input (run env fuel root here atomic) fun result gained =>
      attained gained result = here.offset + reach ∧
        here.Reaches (result.map Match.stop) outcome :=
  run_accounts_of_eval
    ((attains.with_outcome takes).mono fun _ accounts => accounts here _ whole front rfl) fuel

end Machine

/-! ### Parses -/

/-- A failure is reported in silence. -/
theorem reportFailure_same (env : Env) : Action.Drifts Tracker.Same (reportFailure env) :=
  .bind Tracker.same_course (.gets Tracker.same_course _) fun _ =>
    .bind Tracker.same_course (.emit Tracker.same_course env _) fun _ =>
      .pure Tracker.same_course _

theorem reportFailure_attains (env : Env) : Action.Accounts env.input (reportFailure env)
    fun parsed gained => gained = [] ∧ parsed.toOption = none := by
  refine (Action.Accounts.of_same (reportFailure_same env)).answered.mono ?_
  rintro parsed gained ⟨rfl, before, after, ended⟩
  rw [(reportFailure_eq_done ended).1]
  exact ⟨rfl, rfl⟩

section Parses

variable (takes : (expr env false root).Takes env env.input.chars.toList outcome)
  (attains : (expr env false root).Attains env env.input.chars.toList reach) (fuel : Nat)

include takes attains

theorem parsePartial_attains : Action.Accounts env.input (parsePartial env fuel root)
    fun parsed gained => attained gained parsed.toOption = reach ∧
      (Position.start env.input).Reaches (parsed.toOption.map Match.stop) outcome := by
  have begun : (Position.start env.input).rest = env.input.chars.toList := rfl
  refine (attains.of_run_with_outcome rfl begun takes fuel).bind fun result gained known => ?_
  obtain ⟨got, reached⟩ := known
  change attained gained result = ((0 : Nat) : Int) + reach at got
  cases result with
  | none =>
    refine (reportFailure_attains env).mono ?_
    rintro parsed _ ⟨rfl, missed⟩
    rw [missed, List.append_nil]
    exact ⟨by omega, reached⟩
  | some found =>
    refine .pure ?_
    rw [List.append_nil]
    exact ⟨by rw [Except.toOption]; omega, reached⟩

end Parses

/-- Where the root is not found, nothing more is looked for. -/
theorem parse_attains_missed
    (takes : (expr env false root).Takes env env.input.chars.toList none)
    (attains : (expr env false root).Attains env env.input.chars.toList reach) (fuel : Nat) :
    Action.Accounts env.input (parse env fuel root) fun parsed gained =>
      attained gained parsed.toOption = reach := by
  refine (parsePartial_attains takes attains fuel).bind fun parsed gained known => ?_
  obtain ⟨got, reached⟩ := known
  cases parsed with
  | error report => exact .pure (by rwa [List.append_nil])
  | ok found => cases reached

section Whole

variable (single : env.skippers = [skipper]) (ignored : (expr env true skipper).TakesOne env accept)

include single ignored

theorem ignored_attains (input : List Char) :
    (expr env false .ignored).Attains env input (input.takeWhile accept).length := by
  refine (ignored_takes ignored single input).attains_of_same fun fuel here action ways => ?_
  rw [ways]
  cases fuel with
  | zero => exact .exhausted
  | succ fuel => exact .ignored env fuel here false

theorem matchRest_attains (loose : ¬LeadsToAtomic env root) {here : Position}
    (whole : here.input = env.input) (fuel : Nat) :
    Action.Accounts env.input (matchRest env fuel root here) fun stop gained =>
      Recording.furthestOffset gained ≤ stop.offset ∧ stop.input = env.input ∧
        stop.offset = here.offset + (here.rest.takeWhile accept).length := by
  rw [← Env.isAtomic_iff] at loose
  rw [matchRest, if_neg loose]
  refine (Attains.of_run_with_outcome whole rfl (ignored_takes ignored single here.rest)
    (ignored_attains single ignored here.rest) fuel).bind fun result gained known => .pure ?_
  obtain ⟨got, reached⟩ := known
  rw [List.append_nil]
  cases result with
  | none => cases reached
  | some gap =>
    obtain ⟨reads⟩ := reached
    change max (Recording.furthestOffset gained) (gap.stop.offset : Int) = _ at got
    have offset := reads.offset_eq
    exact ⟨by change _ ≤ (gap.stop.offset : Int); omega, reads.input_eq.trans whole, offset⟩

/-- Where it is found, the ignored text after it is skipped, and the end of the text is looked
for. -/
theorem parse_attains_found (loose : ¬LeadsToAtomic env root)
    (split : env.input.chars.toList = text ++ rest)
    (takes : (expr env false root).Takes env env.input.chars.toList (some text))
    (attains : (expr env false root).Attains env env.input.chars.toList reach) (fuel : Nat) :
    Action.Accounts env.input (parse env fuel root) fun parsed gained =>
      attained gained parsed.toOption =
        max reach (text.length + (rest.takeWhile accept).length) := by
  refine (parsePartial_attains takes attains fuel).bind fun parsed gained known => ?_
  obtain ⟨got, reached⟩ := known
  cases parsed with
  | error report => cases reached
  | ok found =>
    obtain ⟨reads⟩ := reached
    have left : found.stop.rest = rest := List.append_cancel_left (reads.rest_eq.symm.trans split)
    have taken : found.stop.offset = text.length := reads.offset_eq.trans (Nat.zero_add _)
    change max (Recording.furthestOffset gained) (found.stop.offset : Int) = _ at got
    refine (matchRest_attains single ignored loose reads.input_eq fuel).bind
      fun stop skipped there => ?_
    obtain ⟨quiet, inside, offset⟩ := there
    rw [left, taken] at offset
    -- From here on nothing is recorded beyond the place where the ignored text ends.
    refine (Attains.of_run inside rfl (boundary_attains (.inr rfl) stop.rest) fuel).bind
      fun result more ended => ?_
    cases result with
    | none =>
      refine (reportFailure_attains env).mono ?_
      rintro parsed _ ⟨rfl, missed⟩
      rw [missed, List.append_nil, attained_append, attained_append]
      simp only [attained] at ended ⊢
      omega
    | some final =>
      refine .pure ?_
      rw [List.append_nil, attained_append, attained_append]
      simp only [attained, Except.toOption] at ended ⊢
      omega

/-- A parse gets as far as the text is viable for what consists of a text of the root and of ignored
text, if such texts can be split where the root has to be taken. -/
theorem exists_parse_attains {intake : Intake} {whole : List Char → Prop}
    (loose : ¬LeadsToAtomic env root)
    (takes : (expr env false root).Takes env env.input.chars.toList outcome)
    (suits : intake.Suits env.input.chars.toList outcome)
    (attains : (expr env false root).Attains env env.input.chars.toList reach)
    (extent : Extent intake.may env.input.chars.toList reach)
    (leads : intake.Leads (fun text => ∀ c ∈ text, accept c = true) whole) :
    ∃ further, Extent whole env.input.chars.toList further ∧ ∀ fuel,
      Action.Accounts env.input (parse env fuel root) fun parsed gained =>
        attained gained parsed.toOption = further := by
  cases outcome with
  | none => exact ⟨reach, leads.extent_missed suits extent, parse_attains_missed takes attains⟩
  | some text =>
    obtain ⟨_, rest, split⟩ := suits.may text rfl
    refine ⟨_, ?_, parse_attains_found single ignored loose split takes attains⟩
    rw [split] at suits extent ⊢
    exact leads.extent_found suits extent (.row accept rest)

end Whole

/-- A parse that fails reports how far it got. -/
theorem report_offset_of_attains {fuel : Nat} {before after : State} {report : Report}
    (attains : Action.Accounts env.input (parse env fuel root) fun parsed gained =>
      attained gained parsed.toOption = reach)
    (fresh : before.tracker = {})
    (ended : parse env fuel root before = .done (.error report) after) :
    report.offset = reach := by
  have listens : before.tracker.Listens := by
    rw [fresh]
    exact ⟨rfl, List.not_mem_nil⟩
  have accounted := attains before listens
  rw [ended] at accounted
  obtain ⟨gained, gains, got⟩ := accounted
  rw [fresh] at gains
  have furthest := (gains.summarizes .empty).furthest_eq
  rw [List.nil_append] at furthest
  change Recording.furthestOffset gained = reach at got
  rw [report_eq_of_parse ended, Tracker.report]
  change max after.tracker.furthest 0 = (reach : Int)
  omega

end Peg.Scan
