import Peg.Proofs.Grammar.Roots
import Peg.Proofs.Machine.Indifference
import Peg.Proofs.Parse.Reports

/-!
# Parsing the whole text

A parse of the whole text is a parse of a prefix with something after it: ignored text, unless the
root is an atomic rule, and then the end of the text. If the prefix does not match, the whole does
not either, and the same is reported. If it does, all depends on where the ignored text ends; should
the text go on there, then its end is what was expected there, besides whatever was found missing
further on.

## Main result

The parse of the whole text ends as the one of a prefix and the end of the ignored text tell.
-/
namespace Peg

/-! ### More fuel -/

section Fuel

variable (env : Env) (expr : Expr) {less more : Nat} (le : less ≤ more)

include le

theorem parsePartial_approximates :
    (parsePartial env less expr).Approximates (parsePartial env more expr) :=
  .bind (run_approximates env expr le _ false) fun _ => .refl _

theorem matchRest_approximates (here : Position) :
    (matchRest env less expr here).Approximates (matchRest env more expr here) := by
  unfold matchRest
  split
  · exact .refl _
  · exact .bind (run_approximates env .ignored le here false) fun _ => .refl _

theorem parse_approximates : (parse env less expr).Approximates (parse env more expr) := by
  refine .bind (parsePartial_approximates env expr le) fun parsed => ?_
  cases parsed with
  | error report => exact .refl _
  | ok found =>
    refine .bind (matchRest_approximates env expr le found.stop) fun stop => ?_
    exact .bind (run_approximates env _ le stop false) fun _ => .refl _

end Fuel

/-- What ends with some fuel ends in the same way with more. -/
theorem Action.Approximates.eq_done {α : Type} {less more : Action α} {state after : State}
    {value : α} (approximates : less.Approximates more) (ended : less state = .done value after) :
    more state = .done value after := by
  rcases approximates state with endless | same
  · cases endless.symm.trans ended
  · exact same.trans ended

/-- A parse that ends answers the same with more fuel. -/
theorem answer_of_le {env : Env} {expr : Expr} {forced : List LazyCell} {less more : Nat}
    (le : less ≤ more)
    (ends : (Reply.ofAction (parse env less expr) forced).answer ≠ .error .exhausted) :
    (Reply.ofAction (parse env more expr) forced).answer =
      (Reply.ofAction (parse env less expr) forced).answer := by
  rcases parse_approximates env expr le { forced } with endless | same
  · exact absurd (by rw [Reply.ofAction, endless]) ends
  · rw [Reply.ofAction, Reply.ofAction, same]

/-- What a parse answers with enough fuel it answers with any, unless the fuel runs out. -/
theorem exhausted_or_of_enough {env : Env} {expr : Expr} {forced : List LazyCell}
    (holds : Except CallError Match → Prop) (answers : ∃ enough, ∀ fuel, enough ≤ fuel →
      holds (Reply.ofAction (parse env fuel expr) forced).answer) (fuel : Nat) :
    (Reply.ofAction (parse env fuel expr) forced).answer = .error .exhausted ∨
      holds (Reply.ofAction (parse env fuel expr) forced).answer := by
  obtain ⟨enough, answers⟩ := answers
  rw [or_iff_not_imp_left]
  intro ends
  rw [← answer_of_le (Nat.le_max_left fuel enough) ends]
  exact answers (max fuel enough) (Nat.le_max_right fuel enough)

/-! ### What becomes of the tracker -/

namespace Action.Drifts

variable {drift : Tracker → Tracker → Prop} (allowed : Tracker.Drift drift) (env : Env) (fuel : Nat)

include allowed

theorem run (expr : Expr) (start : Position) (atomic : Bool) :
    Drifts drift (Peg.run env fuel expr start atomic) := by
  intro before after ended
  have ends : Peg.run env fuel expr start atomic before ≠ .exhausted := by
    intro endless
    rw [endless] at ended
    cases ended
  -- The recursive evaluation comes to the same end, and the tracker that it leaves is known.
  obtain ⟨enough, same⟩ := Machine.eval_of_run ends
  rw [← same] at ended
  exact eval allowed env enough expr start atomic before after ended

/-- A report only reads the tracker. -/
theorem reportFailure : Drifts drift (Peg.reportFailure env) :=
  bind allowed.toCourse (gets allowed.toCourse _) fun _ =>
    bind allowed.toCourse (emit allowed.toCourse env _) fun _ => pure allowed.toCourse _

theorem parsePartial (expr : Expr) : Drifts drift (Peg.parsePartial env fuel expr) := by
  refine bind allowed.toCourse (run allowed env fuel expr _ _) fun result => ?_
  cases result with
  | some found => exact pure allowed.toCourse _
  | none => exact reportFailure allowed env

theorem matchRest (expr : Expr) (here : Position) :
    Drifts drift (Peg.matchRest env fuel expr here) := by
  unfold Peg.matchRest
  split
  · exact pure allowed.toCourse here
  · exact bind allowed.toCourse (run allowed env fuel .ignored here false) fun _ =>
      pure allowed.toCourse _

theorem parse (expr : Expr) : Drifts drift (Peg.parse env fuel expr) := by
  refine bind allowed.toCourse (parsePartial allowed env fuel expr) fun parsed => ?_
  cases parsed with
  | error report => exact pure allowed.toCourse _
  | ok found =>
    refine bind allowed.toCourse (matchRest allowed env fuel expr found.stop) fun stop => ?_
    refine bind allowed.toCourse (run allowed env fuel (.terminal .endOfInput) stop false)
      fun result => ?_
    cases result with
    | some last => exact pure allowed.toCourse _
    | none => exact reportFailure allowed env

end Action.Drifts

/-! ### What follows a match -/

/-- Where the rest of the text is to begin that must be empty: after ignored text, which is tried on
the stack that the match has left and after the lookups that it has made, or at once if the root is
an atomic rule. -/
inductive Follows (env : Env) (root : Expr) (left : State) (here : Position) : Position → Prop
  | atomic : LeadsToAtomic env root → Follows env root left here here
  | ignored {result : Option Match} {after : State} : ¬LeadsToAtomic env root →
      Finishes env .ignored here false { stack := left.stack, forced := left.forced } result after →
      Follows env root left here (Clause.afterGap here result)

section Following

variable {env : Env} {root expr : Expr} {here stop : Position} {before after : State}

/-- What finishes does so in any state with the same stack and the same lookups. -/
theorem Finishes.of_sameStack {atomic : Bool} {result : Option Match}
    (finishes : Finishes env expr here atomic before result after) (other : State)
    (stack : other.stack = before.stack) (forced : other.forced = before.forced) :
    ∃ left, Finishes env expr here atomic other result left := by
  obtain ⟨moves, ran⟩ := finishes
  have alike := run_sameStack Tracker.anything env moves expr here atomic other before
    ⟨stack, trivial, forced ▸ .refl _⟩
  rw [ran] at alike
  obtain ⟨left, also, _⟩ := alike.eq_done
  exact ⟨left, moves, also⟩

/-- To match what follows is to come to where it ends. -/
theorem follows_iff : Follows env root before here stop ↔
    ∃ fuel after, matchRest env fuel root here before = .done stop after := by
  constructor
  · intro follows
    cases follows with
    | atomic leads =>
      rw [← Env.isAtomic_iff] at leads
      exact ⟨0, before, by rw [matchRest, if_pos leads]; rfl⟩
    | ignored loose skipped =>
      rw [← Env.isAtomic_iff] at loose
      obtain ⟨left, fuel, ran⟩ := skipped.of_sameStack before rfl rfl
      refine ⟨fuel, left, ?_⟩
      rw [matchRest, if_neg loose, Action.bind_of_done ran]
      rfl
  · rintro ⟨fuel, after, ended⟩
    by_cases atomic : env.isAtomic root = true
    · rw [matchRest, if_pos atomic] at ended
      cases ended
      exact .atomic (Env.isAtomic_iff.mp atomic)
    · rw [matchRest, if_neg atomic] at ended
      obtain ⟨result, middle, ran, went⟩ := Action.bind_eq_done ended
      cases went
      have skipped : Finishes env .ignored here false before result after := ⟨fuel, ran⟩
      obtain ⟨left, alone⟩ := skipped.of_sameStack
        { stack := before.stack, forced := before.forced } rfl rfl
      exact .ignored (mt Env.isAtomic_iff.mpr atomic) alone

theorem Follows.precedes (follows : Follows env root before here stop) :
    here.Precedes stop := by
  cases follows with
  | atomic => exact .refl here
  | @ignored result _ _ skipped =>
    cases result with
    | none => exact .refl here
    | some found => exact skipped.tiled.precedes

/-- Ignored text leaves the scopes as they were. -/
theorem sameScopes_of_matchRest {fuel : Nat}
    (ended : matchRest env fuel root here before = .done stop after) :
    before.tracker.SameScopes after.tracker :=
  Action.Drifts.matchRest Tracker.sameScopes_drift env fuel root here before after
    (congrArg Outcome.state? ended)

theorem sameScopes_of_parsePartial {fuel : Nat} {found : Match}
    (ended : parsePartial env fuel expr before = .done (.ok found) after) :
    before.tracker.SameScopes after.tracker :=
  Action.Drifts.parsePartial Tracker.sameScopes_drift env fuel expr before after
    (congrArg Outcome.state? ended)

end Following

/-! ### The end of the text -/

section EndOfInput

variable (env : Env) (stop : Position) (state : State)

/-- At the end of the text, its end is matched in any state, which stays as it is. -/
theorem run_endOfInput_found (ends : stop.atEnd = true) :
    ∃ fuel found,
      run env fuel (.terminal .endOfInput) stop false state = .done (some found) state := by
  obtain ⟨span, made, _⟩ := Span.spanTo_eq_ok (.refl stop)
  have matched : eval env 1 (.terminal .endOfInput) stop false state =
      .done (some ⟨stop, some (.terminal .eoi span "")⟩) state := by
    simp only [eval, Terminal.attempt, ends, if_true, Terminal.found, Action.span, made]
    rfl
  have ends : eval env 1 (.terminal .endOfInput) stop false state ≠ .exhausted := by
    intro endless
    cases matched.symm.trans endless
  obtain ⟨fuel, same⟩ := Machine.run_of_eval ends
  exact ⟨fuel, _, same.trans matched⟩

/-- Elsewhere it is recorded as expected. -/
theorem run_endOfInput_missed (inside : stop.atEnd = false) :
    ∃ fuel, run env fuel (.terminal .endOfInput) stop false state =
      .done none { state with
        tracker := state.tracker.recordFailure (.builtin "EOI") stop.offset } := by
  have missed : eval env 1 (.terminal .endOfInput) stop false state =
      .done none { state with
        tracker := state.tracker.recordFailure (.builtin "EOI") stop.offset } := by
    simp only [eval, Terminal.attempt, inside]
    rfl
  have ends : eval env 1 (.terminal .endOfInput) stop false state ≠ .exhausted := by
    intro endless
    cases missed.symm.trans endless
  obtain ⟨fuel, same⟩ := Machine.run_of_eval ends
  exact ⟨fuel, same.trans missed⟩

/-- Outside of all scopes, what is recorded at an offset is reported there unless something was
missing further on, and as expected. -/
theorem report_recordFailure {tracker : Tracker} (unscoped : Tracker.SameScopes {} tracker)
    {failure : Failure} (expectation : failure.isExpectation = true) (input : Input)
    (offset : Nat) :
    let report := (tracker.recordFailure failure offset).report input
    offset ≤ report.offset ∧ (report.offset = offset → failure.label ∈ report.expected) := by
  have unmuted : tracker.muteDepth = 0 := unscoped.muteDepth.symm
  have furthest := tracker.recordFailure_furthest failure none unmuted offset
  have reported : ((tracker.recordFailure failure offset).report input).offset =
      max (max tracker.furthest offset) 0 := by
    rw [Tracker.report, furthest]
  dsimp only
  rw [reported]
  refine ⟨by omega, fun here => ?_⟩
  have member : tracker.recordOf failure none ∈ (tracker.recordFailure failure offset).records :=
    tracker.mem_recordFailure failure none unmuted (by omega)
  have kind : (tracker.recordOf failure none).kind = none := by
    rw [Tracker.recordOf, Tracker.kind, ← unscoped.kinds]
    rfl
  refine mem_distinct.mpr (List.mem_filterMap.mpr ⟨_, member, ?_⟩)
  have label : (tracker.recordOf failure none).failure = failure := rfl
  simp [kind, label, expectation]

end EndOfInput

/-! ### Main result -/

section Result

variable {env : Env} {expr : Expr} {fuel : Nat} {before middle : State}

/-- A parse of the whole text goes on only where the prefix has matched. -/
theorem parse_of_not_ok
    (missed : ∀ found after, parsePartial env fuel expr before ≠ .done (.ok found) after) :
    parse env fuel expr before = parsePartial env fuel expr before := by
  unfold parse
  cases ended : parsePartial env fuel expr before with
  | done parsed after =>
    rw [Action.bind_of_done ended]
    cases parsed with
    | error report => rfl
    | ok found => exact absurd ended (missed found after)
  | fault cause after => exact Action.bind_of_fault ended
  | exhausted => exact Action.bind_of_exhausted ended

/-- What matched with some fuel is what a parse with any fuel goes on from. -/
theorem follows_of_parse {more : Nat} {found : Match} {parsed : Parsed} {after : State}
    (matched : parsePartial env fuel expr before = .done (.ok found) middle)
    (ended : parse env more expr before = .done parsed after) :
    ∃ stop, Follows env expr middle found.stop stop := by
  have enough := (parse_approximates env expr (Nat.le_max_right fuel more)).eq_done ended
  have again := (parsePartial_approximates env expr (Nat.le_max_left fuel more)).eq_done matched
  unfold parse at enough
  rw [Action.bind_of_done again] at enough
  obtain ⟨stop, left, skipped, _⟩ := Action.bind_eq_done enough
  exact ⟨stop, follows_iff.mpr ⟨_, _, skipped⟩⟩

/-- After a match and what follows it, all depends on the end of the text. -/
theorem parse_eq_of_skipped {found : Match} {stop : Position} {left : State}
    (matched : parsePartial env fuel expr before = .done (.ok found) middle)
    (skipped : matchRest env fuel expr found.stop middle = .done stop left) :
    parse env fuel expr before =
      (run env fuel (.terminal .endOfInput) stop false >>= fun result => match result with
        | some _ => pure (.ok ⟨stop, found.node⟩)
        | none => reportFailure env) left := by
  unfold parse
  rw [Action.bind_of_done matched]
  exact Action.bind_of_done skipped

theorem parse_of_follows {found : Match} {stop : Position}
    (unscoped : Tracker.SameScopes {} before.tracker)
    (matched : parsePartial env fuel expr before = .done (.ok found) middle)
    (follows : Follows env expr middle found.stop stop) :
    ∃ enough parsed after,
      (∀ more, enough ≤ more → parse env more expr before = .done parsed after) ∧
        (stop.atEnd = true → parsed = .ok ⟨stop, found.node⟩) ∧
        (stop.atEnd = false → ∃ report, parsed = .error report ∧
          stop.offset ≤ report.offset ∧
          (report.offset = stop.offset → "EOI" ∈ report.expected)) := by
  obtain ⟨rest, left, skipped⟩ := follows_iff.mp follows
  -- With enough fuel for the parts, the parse comes to the end of the text.
  have reaches : ∀ {last : Nat} {result : Option Match} {final : State},
      run env last (.terminal .endOfInput) stop false left = .done result final →
      ∀ more, max fuel (max rest last) ≤ more →
        parse env more expr before = (match result with
          | some _ => pure (.ok ⟨stop, found.node⟩)
          | none => reportFailure env : Action Parsed) final := by
    intro last result final ended more enough
    have early : fuel ≤ more := by omega
    have gap : rest ≤ more := by omega
    have late : last ≤ more := by omega
    have matched := (parsePartial_approximates env expr early).eq_done matched
    have skipped := (matchRest_approximates env expr gap found.stop).eq_done skipped
    have ended := (run_approximates env (.terminal .endOfInput) late stop false).eq_done ended
    rw [parse_eq_of_skipped matched skipped]
    exact Action.bind_of_done ended
  cases ends : stop.atEnd with
  | true =>
    obtain ⟨last, final, ended⟩ := run_endOfInput_found env stop left ends
    exact ⟨_, .ok ⟨stop, found.node⟩, left, reaches ended, fun _ => rfl, nofun⟩
  | false =>
    obtain ⟨last, ended⟩ := run_endOfInput_missed env stop left ends
    have scopes := (unscoped.trans (sameScopes_of_parsePartial matched)).trans
      (sameScopes_of_matchRest skipped)
    obtain ⟨trace, reported⟩ := reportFailure_eq env { left with
      tracker := left.tracker.recordFailure (.builtin "EOI") stop.offset }
    refine ⟨_, _, _, fun more enough => (reaches ended more enough).trans reported, nofun,
      fun _ => ⟨_, rfl, ?_⟩⟩
    exact report_recordFailure scopes rfl env.input stop.offset

end Result

/-- A parse of the whole text is a parse of a prefix that is to be completed. If the prefix does not
match, or its parse is broken off or does not end, it is the same with the whole. If the prefix
matches and the parse of the whole ends, then ignored text ends somewhere after the match, or right
there after an atomic root. If that is the end of the text, the parse of the whole, given enough
fuel, answers the same node; if not, it reports a failure there, at which the end of the text was
expected, or one further on. -/
theorem parse_completes_partial (env : Env) (expr : Expr) (forced : List LazyCell) (fuel : Nat) :
    ((∀ found middle, parsePartial env fuel expr { forced } ≠ .done (.ok found) middle) →
        parse env fuel expr { forced } = parsePartial env fuel expr { forced }) ∧
      ∀ found middle, parsePartial env fuel expr { forced } = .done (.ok found) middle →
        (∀ more parsed after, parse env more expr { forced } = .done parsed after →
          ∃ stop, Follows env expr middle found.stop stop) ∧
        ∀ stop, Follows env expr middle found.stop stop →
          ∃ enough parsed after,
            (∀ more, enough ≤ more → parse env more expr { forced } = .done parsed after) ∧
              (stop.offset = env.input.size → parsed = .ok ⟨stop, found.node⟩) ∧
              (stop.offset ≠ env.input.size → ∃ report, parsed = .error report ∧
                stop.offset ≤ report.offset ∧
                (report.offset = stop.offset → "EOI" ∈ report.expected)) := by
  refine ⟨parse_of_not_ok, fun found middle matched => ⟨?_, fun stop follows => ?_⟩⟩
  · intro more parsed after ended
    exact follows_of_parse matched ended
  · have ordered := (tiled_of_parsePartial matched).precedes.trans follows.precedes
    have input : stop.input = env.input := ordered.input_eq
    have ends : stop.atEnd = true ↔ stop.offset = env.input.size := by
      rw [Position.atEnd, beq_iff_eq, input]
    obtain ⟨enough, parsed, after, ended, whole, beyond⟩ :=
      parse_of_follows (.refl _) matched follows
    refine ⟨enough, parsed, after, ended, fun there => whole (ends.mpr there), fun inside => ?_⟩
    exact beyond (Bool.eq_false_iff.mpr (mt ends.mp inside))

/-- A letter, a space and another letter, where spaces are ignored. -/
def gappedEnv : Env := { input := ⟨0, #['a', ' ', 'c']⟩, whitespace := some (.literal " ") }

/-- The other letter is no prefix, and no more of it is the whole. The first one is a prefix, after
which the space is ignored; there the end of the text is missing. -/
theorem letter_completed_by_space :
    parse gappedEnv 30 (.literal "c") {} = parsePartial gappedEnv 30 (.literal "c") {} ∧
      ∃ enough report after,
        (∀ more, enough ≤ more →
          parse gappedEnv more (.literal "a") {} = .done (.error report) after) ∧
        2 ≤ report.offset := by
  constructor
  · exact (parse_completes_partial gappedEnv (.literal "c") [] 30).1 nofun
  · have completes := (parse_completes_partial gappedEnv (.literal "a") [] 30).2 _ _ rfl
    obtain ⟨enough, parsed, after, ended, _, beyond⟩ := completes.2 _ (.ignored nofun ⟨30, rfl⟩)
    obtain ⟨report, rfl, further, _⟩ := beyond (by decide)
    exact ⟨enough, report, after, ended, further⟩

end Peg
