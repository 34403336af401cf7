import Peg.Proofs.Natural.Rules

/-!
# The engine implements the natural semantics

On standard expressions, matched atomically and with no limit on repetitions, the engine finishes
exactly where the semantics derives an outcome, and with that outcome.

Soundness goes by induction on the fuel: what the engine answers, the pattern parses. Completeness
goes by induction on the number of steps of a derivation, and for each number of steps over the
expression; with enough fuel every part that the derivation speaks of comes to its end. In both, the
loops of the engine are followed item by item, and a repetition is followed through its unfolding:
after some matches, the pattern that is left is the unfolding with as many matches less to come.
-/
namespace Peg

variable {env : Env} {names : String → Prop}

/-- The pattern that is left of a repetition after some matches. -/
def Pattern.remaining (body : Pattern) (min : Nat) (max : Option Nat) (count : Nat) : Pattern :=
  .repeated body (min - count) (max.map (· - count))

namespace Pattern

theorem remaining_zero (body : Pattern) (min : Nat) (max : Option Nat) :
    body.remaining min max 0 = .repeated body min max := by
  cases max <;> rfl

theorem remaining_succ (body : Pattern) (min : Nat) (max : Option Nat) (count : Nat) :
    body.remaining min max (count + 1) =
      .repeated body (min - count - 1) ((max.map (· - count)).map (· - 1)) := by
  cases max <;> rfl

theorem remaining_full (body : Pattern) (min : Nat) {max : Option Nat} {count : Nat}
    (full : max.any (· ≤ count) = true) :
    body.remaining min max count = .repeated body (min - count) (some 0) := by
  cases max with
  | none => cases full
  | some max =>
    have gone : max - count = 0 := by simpa [Nat.sub_eq_zero_iff_le] using full
    simp only [remaining, Option.map_some, gone]

theorem room_of_not_full {max : Option Nat} {count : Nat} (room : ¬max.any (· ≤ count) = true) :
    max.map (· - count) ≠ some 0 := by
  cases max with
  | none => nofun
  | some max =>
    intro gone
    have within : max ≤ count := by simpa [Nat.sub_eq_zero_iff_le] using gone
    exact room (decide_eq_true within)

end Pattern

/-! ### Soundness -/

namespace Sound

variable {run : Eval.Matcher} {start : Position}

/-- Where matching an expression stops, its pattern parses. -/
def Part (env : Env) (run : Eval.Matcher) (expr : Expr) : Prop :=
  ∀ here, Stops false (run expr here true) fun stop =>
    ∃ steps, Parses env.grammar expr.pattern here steps stop

theorem items {first : Expr} {rest : List Expr} (part : Part env run first)
    (others : ∀ expr ∈ rest, Part env run expr) {here : Position} (ordered : start.Precedes here)
    (found : Array (Option Node)) :
    Stops false (Eval.items run true start (first :: rest) here found) fun stop => ∃ steps,
      Parses env.grammar (.sequenceOf first.pattern (Expr.patterns rest)) here steps stop := by
  induction rest generalizing first here found with
  | nil =>
    refine Stops.items_cons (part here) id fun stop reached found => ?_
    obtain ⟨steps, parses⟩ := reached
    exact Stops.items_nil (ordered.trans parses.precedes) ⟨steps, parses⟩
  | cons second rest ih =>
    obtain ⟨next, others⟩ := List.forall_mem_cons.mp others
    refine Stops.items_cons (part here) ?_ fun stop reached found => ?_
    · rintro ⟨steps, fails⟩
      exact ⟨_, Parses.sequence_iff.mpr (.inl ⟨steps, rfl, rfl, fails⟩)⟩
    · obtain ⟨early, parses⟩ := reached
      have later := ih next others (ordered.trans parses.precedes) found
      refine later.mono fun result reached => ?_
      obtain ⟨late, ends⟩ := reached
      exact ⟨_, Parses.sequence_iff.mpr (.inr ⟨early, late, stop, rfl, parses, ends⟩)⟩

theorem alternatives {first : Expr} {rest : List Expr} (part : Part env run first)
    (others : ∀ expr ∈ rest, Part env run expr) (index : Nat) :
    Stops false (Eval.alternatives run true start index (first :: rest)) fun stop => ∃ steps,
      Parses env.grammar (.choiceOf first.pattern (Expr.patterns rest)) start steps stop := by
  induction rest generalizing first index with
  | nil =>
    refine Stops.alternatives_cons (part start) ?_ fun reached => Stops.failed reached
    rintro stop ⟨steps, parses⟩
    exact ⟨parses.precedes, steps, parses⟩
  | cons second rest ih =>
    obtain ⟨next, others⟩ := List.forall_mem_cons.mp others
    refine Stops.alternatives_cons (part start) ?_ fun reached => ?_
    · rintro stop ⟨steps, parses⟩
      exact ⟨parses.precedes, _, Parses.choice_iff.mpr (.inl ⟨steps, stop, rfl, rfl, parses⟩)⟩
    · obtain ⟨early, fails⟩ := reached
      have later := ih next others (index + 1)
      refine later.mono fun result reached => ?_
      obtain ⟨late, ends⟩ := reached
      exact ⟨_, Parses.choice_iff.mpr (.inr ⟨early, late, rfl, fails, ends⟩)⟩

theorem repetition {body : Expr} (unlimited : env.repeatLimit = none) (part : Part env run body)
    (min : Nat) (max : Option Nat) (rounds : Nat) {here : Position} (ordered : start.Precedes here)
    (found : Array (Option Node)) :
    Stops false (Eval.repetition env run body min max true start rounds here found) fun stop =>
      ∃ steps, Parses env.grammar (body.pattern.remaining min max found.size) here steps stop := by
  induction rounds generalizing here found with
  | zero => exact .exhausted
  | succ rounds ih =>
    by_cases full : max.any (· ≤ found.size) = true
    · -- No more matches are allowed: what is left of the pattern ends where it stands, or fails.
      refine Stops.repetition_full full ordered ?_
      rw [Pattern.remaining_full _ _ full]
      exact Parses.repeated_full _ _ _ _
    · have room := Pattern.room_of_not_full full
      refine Stops.repetition_round unlimited full ordered (part here) ?_ ?_
      · rintro ⟨early, fails⟩
        exact Parses.repeated_last room fails
      · rintro stop ⟨early, parses⟩ node
        -- One match more is found, and one less is left to come.
        refine (ih (ordered.trans parses.precedes) (found.push node)).mono fun result reached => ?_
        obtain ⟨late, ends⟩ := reached
        rw [Array.size_push, Pattern.remaining_succ] at ends
        exact Parses.repeated_more room parses ends

/-- What the engine answers, the pattern parses. -/
theorem eval (unlimited : env.repeatLimit = none)
    (closed : ∀ name target, names name → env.rules.lookup name = some target →
      target.Standard names)
    (fuel : Nat) {expr : Expr} (standard : expr.Standard names) :
    Part env (eval env fuel) expr := by
  induction fuel generalizing expr with
  | zero => exact fun here => .exhausted
  | succ fuel parts =>
    intro here
    cases standard with
    | terminal leaf => exact Stops.attempt leaf env.grammar here
    | seq first rest =>
      exact items (parts first) (fun expr among => parts (rest expr among)) (.refl here) #[]
    | choice first rest =>
      exact alternatives (parts first) (fun expr among => parts (rest expr among)) 0
    | opt body =>
      refine Stops.opt (parts body here) ?_ ?_
      · rintro ⟨steps, fails⟩
        exact ⟨_, Parses.optional_iff.mpr (.inr ⟨steps, rfl, rfl, fails⟩)⟩
      · rintro stop ⟨steps, parses⟩
        exact ⟨parses.precedes, _, Parses.optional_iff.mpr (.inl ⟨steps, stop, rfl, rfl, parses⟩)⟩
    | rep min max body =>
      have loop := repetition unlimited (parts body) min max fuel (.refl here) #[]
      rw [Array.size_empty, Pattern.remaining_zero] at loop
      exact loop
    | positive body =>
      -- A positive lookahead is a predicate twice, so that each outcome is turned twice.
      refine Stops.positive body.shownCells (parts body here) ?_ ?_
      · rintro ⟨steps, fails⟩
        have inner := Parses.not_iff.mpr (.inr ⟨steps, rfl, rfl, fails⟩)
        exact ⟨_, Parses.not_iff.mpr (.inl ⟨_, here, rfl, rfl, inner⟩)⟩
      · rintro stop ⟨steps, parses⟩
        have inner := Parses.not_iff.mpr (.inl ⟨steps, stop, rfl, rfl, parses⟩)
        exact ⟨_, Parses.not_iff.mpr (.inr ⟨_, rfl, rfl, inner⟩)⟩
    | negative body =>
      refine Stops.negative body.shownCells (parts body here) ?_ ?_
      · rintro ⟨steps, fails⟩
        exact ⟨_, Parses.not_iff.mpr (.inr ⟨steps, rfl, rfl, fails⟩)⟩
      · rintro stop ⟨steps, parses⟩
        exact ⟨_, Parses.not_iff.mpr (.inl ⟨steps, stop, rfl, rfl, parses⟩)⟩
    | rule tag name kept body =>
      refine Stops.rule ?_ ?_
      · rw [RuleKind.bodyAtomic_true kept]
        exact parts body here
      · rintro stop ⟨steps, parses⟩
        exact parses.precedes
    | @ref name known =>
      cases defined : env.rules.lookup name with
      | none =>
        -- The engine is broken off here, and there is no derivation either.
        exact Stops.undefined defined
      | some target =>
        have assigned : env.grammar name = some target.pattern := by simp [Env.grammar, defined]
        refine Stops.ref defined ((parts (closed name target known defined) here).mono ?_)
        rintro result ⟨steps, parses⟩
        exact ⟨_, Parses.nonterminal_iff.mpr ⟨_, steps, assigned, rfl, parses⟩⟩

end Sound

/-! ### Completeness -/

/-- The condition holds of every amount of fuel from some amount on. -/
def Eventually (holds : Nat → Prop) : Prop := ∃ least, ∀ fuel, least ≤ fuel → holds fuel

namespace Eventually

theorem above (bound : Nat) : Eventually (bound < ·) := ⟨bound + 1, fun _ enough => enough⟩

theorem mono {holds weaker : Nat → Prop} (eventually : Eventually holds)
    (weaken : ∀ fuel, holds fuel → weaker fuel) : Eventually weaker := by
  obtain ⟨least, sufficient⟩ := eventually
  exact ⟨least, fun fuel enough => weaken fuel (sufficient fuel enough)⟩

theorem and {holds also : Nat → Prop} (first : Eventually holds) (second : Eventually also) :
    Eventually fun fuel => holds fuel ∧ also fuel := by
  obtain ⟨least, sufficient⟩ := first
  obtain ⟨other, alsoSufficient⟩ := second
  refine ⟨max least other, fun fuel enough => ⟨sufficient fuel ?_, alsoSufficient fuel ?_⟩⟩
  · omega
  · omega

/-- One level of evaluation takes one unit of fuel. -/
theorem succ {holds next : Nat → Prop} (eventually : Eventually holds)
    (step : ∀ fuel, holds fuel → next (fuel + 1)) : Eventually next := by
  obtain ⟨least, sufficient⟩ := eventually
  refine ⟨least + 1, fun fuel enough => ?_⟩
  cases fuel with
  | zero => omega
  | succ fuel => exact step fuel (sufficient fuel (Nat.le_of_succ_le_succ enough))

end Eventually

namespace Complete

variable {bound steps : Nat} {here : Position} {stop : Option Position}

/-- Given enough fuel, matching an expression stops where its pattern parses in at most so many
steps. -/
def Part (env : Env) (expr : Expr) (bound : Nat) : Prop :=
  ∀ steps, steps ≤ bound → ∀ here stop, Parses env.grammar expr.pattern here steps stop →
    Eventually fun fuel => Stops true (eval env fuel expr here true) (· = stop)

theorem items {first : Expr} {rest : List Expr} (part : Part env first bound)
    (others : ∀ expr ∈ rest, Part env expr bound) (within : steps ≤ bound)
    (parses : Parses env.grammar (.sequenceOf first.pattern (Expr.patterns rest)) here steps stop) :
    Eventually fun fuel => ∀ start found, start.Precedes here →
      Stops true (Eval.items (eval env fuel) true start (first :: rest) here found) (· = stop) := by
  induction rest generalizing first here steps with
  | nil =>
    refine (part steps within here stop parses).mono fun fuel stops start found ordered => ?_
    refine Stops.items_cons stops id ?_
    rintro middle rfl found
    exact Stops.items_nil (ordered.trans parses.precedes) rfl
  | cons second rest ih =>
    rcases Parses.sequence_iff.mp parses with ⟨early, rfl, rfl, fails⟩ |
      ⟨early, late, middle, rfl, matched, ends⟩
    · refine (part early (by omega) here none fails).mono fun fuel stops start found ordered => ?_
      exact Stops.items_cons stops id nofun
    · have now := part early (by omega) here (some middle) matched
      obtain ⟨next, others⟩ := List.forall_mem_cons.mp others
      have later := ih next others (by omega) ends
      refine (now.and later).mono fun fuel both start found ordered => ?_
      refine Stops.items_cons both.1 nofun ?_
      rintro _ ⟨⟩ found
      exact both.2 start found (ordered.trans matched.precedes)

theorem alternatives {first : Expr} {rest : List Expr} (part : Part env first bound)
    (others : ∀ expr ∈ rest, Part env expr bound) (within : steps ≤ bound)
    (parses : Parses env.grammar (.choiceOf first.pattern (Expr.patterns rest)) here steps stop) :
    Eventually fun fuel => ∀ index, Stops true
      (Eval.alternatives (eval env fuel) true here index (first :: rest)) (· = stop) := by
  induction rest generalizing first steps with
  | nil =>
    refine (part steps within here stop parses).mono fun fuel stops index => ?_
    refine Stops.alternatives_cons stops ?_ fun reached => Stops.failed reached
    rintro final rfl
    exact ⟨parses.precedes, rfl⟩
  | cons second rest ih =>
    rcases Parses.choice_iff.mp parses with ⟨early, final, rfl, rfl, matched⟩ |
      ⟨early, late, rfl, fails, ends⟩
    · refine (part early (by omega) here (some final) matched).mono fun fuel stops index => ?_
      refine Stops.alternatives_cons stops ?_ nofun
      rintro _ ⟨⟩
      exact ⟨matched.precedes, rfl⟩
    · have now := part early (by omega) here none fails
      obtain ⟨next, others⟩ := List.forall_mem_cons.mp others
      have later := ih next others (by omega) ends
      refine (now.and later).mono fun fuel both index => ?_
      exact Stops.alternatives_cons both.1 nofun fun _ => both.2 (index + 1)

/-- A repetition takes no more rounds than its derivation has steps, and one to end. -/
theorem repetition {body : Expr} (unlimited : env.repeatLimit = none) (part : Part env body bound)
    {min : Nat} {max : Option Nat} {count : Nat} (within : steps ≤ bound)
    (parses : Parses env.grammar (body.pattern.remaining min max count) here steps stop) :
    Eventually fun fuel => ∀ rounds start found, steps ≤ rounds → found.size = count →
      start.Precedes here →
      Stops true
        (Eval.repetition env (eval env fuel) body min max true start (rounds + 1) here found)
        (· = stop) := by
  -- The induction is on the steps: each round takes up some of them.
  induction steps using Nat.strongRecOn generalizing here count with
  | ind steps ih =>
    by_cases full : max.any (· ≤ count) = true
    · rw [Pattern.remaining_full _ _ full] at parses
      obtain ⟨others, ends⟩ := Parses.repeated_full env.grammar body.pattern here (min - count)
      obtain ⟨_, rfl⟩ := parses.unique ends
      refine ⟨0, fun fuel _ rounds start found enough counted ordered => ?_⟩
      subst counted
      exact Stops.repetition_full full ordered rfl
    · have room := Pattern.room_of_not_full full
      rcases Parses.repeated_cases room parses with ⟨early, fewer, fails, rfl⟩ |
        ⟨early, late, middle, fewer, fewerLater, matched, ends⟩
      · have now := part early (by omega) here none fails
        refine now.mono fun fuel stops rounds start found enough counted ordered => ?_
        subst counted
        exact Stops.repetition_round unlimited full ordered stops (fun _ => rfl) nofun
      · have now := part early (by omega) here (some middle) matched
        rw [← Pattern.remaining_succ] at ends
        have later := ih late fewerLater (by omega) ends
        refine (now.and later).mono fun fuel both rounds start found enough counted ordered => ?_
        subst counted
        refine Stops.repetition_round unlimited full ordered both.1 nofun ?_
        rintro _ ⟨⟩ node
        -- The steps of the later derivation are fewer, so that there are rounds enough for it.
        cases rounds with
        | zero => omega
        | succ rounds =>
          exact both.2 rounds start (found.push node) (by omega) (Array.size_push _)
            (ordered.trans matched.precedes)

/-- What a pattern parses, the engine finishes. -/
theorem eval (unlimited : env.repeatLimit = none)
    (closed : ∀ name target, names name → env.rules.lookup name = some target →
      target.Standard names)
    (bound : Nat) {expr : Expr} (standard : expr.Standard names) : Part env expr bound := by
  induction bound using Nat.strongRecOn generalizing expr with
  | ind bound fewer =>
    induction standard with
    | terminal leaf =>
      intro steps within here stop parses
      refine Eventually.succ (Eventually.above 0) fun fuel _ => ?_
      -- The terminal stops where some derivation says, and derivations are determined.
      refine (Stops.attempt leaf env.grammar here).mono ?_
      rintro result ⟨others, also⟩
      exact (also.unique parses).2
    | seq first rest part parts =>
      intro steps within here stop parses
      have loop := items part parts within parses
      exact loop.succ fun fuel stops => stops here #[] (.refl here)
    | choice first rest part parts =>
      intro steps within here stop parses
      have loop := alternatives part parts within parses
      exact loop.succ fun fuel stops => stops 0
    | opt body part =>
      intro steps within here stop parses
      rcases Parses.optional_iff.mp parses with ⟨early, final, rfl, rfl, matched⟩ |
        ⟨early, rfl, rfl, fails⟩
      · refine (part early (by omega) here _ matched).succ fun fuel stops => ?_
        refine Stops.opt stops nofun ?_
        rintro _ ⟨⟩
        exact ⟨matched.precedes, rfl⟩
      · refine (part early (by omega) here _ fails).succ fun fuel stops => ?_
        exact Stops.opt stops (fun _ => rfl) nofun
    | rep min max body part =>
      intro steps within here stop parses
      -- Before the first match, all of the unfolding is left.
      change Parses env.grammar (.repeated _ min max) here steps stop at parses
      rw [← Pattern.remaining_zero] at parses
      have loop := repetition unlimited part within parses
      refine (loop.and (Eventually.above steps)).succ fun fuel both => ?_
      obtain ⟨stops, enough⟩ := both
      cases fuel with
      | zero => omega
      | succ rounds => exact stops rounds here #[] (Nat.le_of_lt_succ enough) rfl (.refl here)
    | positive body part =>
      intro steps within here stop parses
      rcases Parses.not_iff.mp parses with ⟨early, final, rfl, rfl, inner⟩ |
        ⟨early, rfl, rfl, inner⟩
      · rcases Parses.not_iff.mp inner with ⟨_, _, _, ⟨⟩, _⟩ | ⟨first, rfl, _, fails⟩
        refine (part first (by omega) here _ fails).succ fun fuel stops => ?_
        exact Stops.positive body.shownCells stops (fun _ => rfl) nofun
      · rcases Parses.not_iff.mp inner with ⟨first, final, rfl, _, matched⟩ | ⟨_, _, ⟨⟩, _⟩
        refine (part first (by omega) here _ matched).succ fun fuel stops => ?_
        exact Stops.positive body.shownCells stops nofun fun _ _ => rfl
    | negative body part =>
      intro steps within here stop parses
      rcases Parses.not_iff.mp parses with ⟨early, final, rfl, rfl, matched⟩ |
        ⟨early, rfl, rfl, fails⟩
      · refine (part early (by omega) here _ matched).succ fun fuel stops => ?_
        exact Stops.negative body.shownCells stops nofun fun _ _ => rfl
      · refine (part early (by omega) here _ fails).succ fun fuel stops => ?_
        exact Stops.negative body.shownCells stops (fun _ => rfl) nofun
    | rule tag name kept body part =>
      intro steps within here stop parses
      refine (part steps within here stop parses).succ fun fuel stops => ?_
      refine Stops.rule ?_ ?_
      · rw [RuleKind.bodyAtomic_true kept]
        exact stops
      · rintro final rfl
        exact Parses.precedes parses
    | @ref name known =>
      intro steps within here stop parses
      obtain ⟨body, inner, assigned, rfl, ends⟩ := Parses.nonterminal_iff.mp parses
      obtain ⟨target, defined, rfl⟩ := Option.map_eq_some_iff.mp assigned
      -- The body of the rule is no part of the reference, but its derivation is shorter.
      have part := fewer inner (by omega) (closed name target known defined)
      refine (part inner (Nat.le_refl inner) here stop ends).succ fun fuel stops => ?_
      exact Stops.ref defined stops

end Complete

/-! ### Main result -/

section Main

variable {expr : Expr} {start : Position} {before : State} (unlimited : env.repeatLimit = none)
  (closed : ∀ name target, names name → env.rules.lookup name = some target →
    target.Standard names)
  (standard : expr.Standard names)

include unlimited closed standard

end Main

end Peg
