import Peg.Proofs.Eval.Reporting
import Peg.Proofs.Scan.Classes

/-!
# How far matching gets

Matching gets as far into an input as the furthest failure that it records, or as the end of the
match if that is further. Unlike failures and matches by themselves, this distance composes: where
one scan comes after another, it is the longer of both, the second one counted from where the first
one stopped. A scan that fails in silence has no such distance of its own, so that it may only come
after another one that has failed at the same place.
-/
namespace Peg

open Recording (furthestOffset furthestOffset_append furthestOffset_singleton)

/-- The offset up to which some failures and a match get. -/
def attained (gained : List Recording) : Option Match → Int
  | none => furthestOffset gained
  | some found => max (furthestOffset gained) found.stop.offset

theorem attained_append (earlier later : List Recording) (result : Option Match) :
    attained (earlier ++ later) result =
      max (furthestOffset earlier) (attained later result) := by
  cases result with
  | none => exact furthestOffset_append earlier later
  | some found =>
    simp only [attained]
    rw [furthestOffset_append, max_assoc]

namespace Scan

/-- Wherever the text goes on with the input, scanning gets so many characters into it. -/
def Attains (env : Env) (scan : Scan) (input : List Char) (reach : Nat) : Prop :=
  Eventually fun fuel => ∀ here action, here.input = env.input → here.rest = input →
    scan fuel here action → Action.Accounts env.input action fun result gained =>
      attained gained result = here.offset + reach

section Rules

variable {env : Env} {scan inner first ended more : Scan} {input text rest : List Char}
  {reach further : Nat}

theorem Attains.refine (attains : inner.Attains env input reach) (refines : scan.Refines inner) :
    scan.Attains env input reach :=
  attains.mono fun fuel accounts here action whole front ways =>
    accounts here action whole front (refines fuel here action ways)

theorem Attains.unfold (attains : inner.Attains env input reach) (unfolds : scan.Unfolds inner) :
    scan.Attains env input reach :=
  Eventually.succ attains fun fuel accounts here action whole front ways =>
    accounts here action whole front (unfolds fuel here action ways)

/-- What a scan takes is known of its answer when that is accounted for. -/
theorem Attains.with_outcome {outcome : Option (List Char)} (takes : scan.Takes env input outcome)
    (attains : scan.Attains env input reach) : Eventually fun fuel => ∀ here action,
      here.input = env.input → here.rest = input → scan fuel here action →
        Action.Accounts env.input action fun result gained =>
          attained gained result = here.offset + reach ∧
            here.Reaches (result.map Match.stop) outcome := by
  refine (takes.and attains).mono fun fuel both here action whole front ways => ?_
  refine (both.2 here action whole front ways).answered.mono ?_
  rintro result gained ⟨got, before, after, ended⟩
  exact ⟨got, (both.1 here action whole front ways).sound ended⟩

/-- What records nothing gets as far as it takes. -/
theorem Takes.attains_of_same (takes : scan.Takes env input (some text))
    (same : ∀ fuel here action, scan fuel here action → Action.Drifts Tracker.Same action) :
    scan.Attains env input text.length := by
  refine Eventually.mono takes fun fuel stops here action whole front ways => ?_
  refine (Action.Accounts.of_same (same fuel here action ways)).answered.mono ?_
  rintro result _ ⟨rfl, before, after, ended⟩
  have reached := (stops here action whole front ways).sound ended
  cases result with
  | none => cases reached
  | some found =>
    obtain ⟨reads⟩ := reached
    have offset := reads.offset_eq
    change max (-1) (found.stop.offset : Int) = _
    omega

theorem stays_same {fuel : Nat} {here : Position} {action : Action (Option Match)}
    (ways : stays fuel here action) : Action.Drifts Tracker.Same action := by
  obtain ⟨start, node, _, rfl⟩ := ways
  exact .bind Tracker.same_course (.ofExcept Tracker.same_course _ _)
    fun span => .pure Tracker.same_course _

theorem stays_takes : stays.Takes env input (some []) := standing_takes.refine stays_refines

theorem stays_attains : stays.Attains env input 0 :=
  stays_takes.attains_of_same fun _ _ _ => stays_same

/-- After a scan that fails nothing more need be done. -/
theorem Attains.branch_quits (missed : first.Takes env input none)
    (early : first.Attains env input reach) :
    (branch first quits more).Attains env input reach := by
  refine (early.with_outcome missed).mono fun fuel accounts here action whole front => ?_
  rintro ⟨begun, next, rfl, isFirst, isEnded, _⟩
  refine (accounts here begun whole front isFirst).bind fun result gained known => ?_
  obtain ⟨got, reached⟩ := known
  cases result with
  | none =>
    rw [show next none = pure none from isEnded]
    exact .pure (by rwa [List.append_nil])
  | some found => cases reached

theorem Attains.branch_missed (missed : first.Takes env input none)
    (early : first.Attains env input reach) (late : ended.Attains env input further) :
    (branch first ended more).Attains env input (max reach further) := by
  refine ((early.with_outcome missed).and late).mono fun fuel both here action whole front => ?_
  rintro ⟨begun, next, rfl, isFirst, isEnded, _⟩
  refine (both.1 here begun whole front isFirst).bind fun result gained known => ?_
  obtain ⟨got, reached⟩ := known
  cases result with
  | none =>
    refine (both.2 here (next none) whole front isEnded).mono fun answer others went => ?_
    rw [attained_append, went]
    simp only [attained] at got
    omega
  | some found => cases reached

theorem Attains.branch_found (found : first.Takes env (text ++ rest) (some text))
    (early : first.Attains env (text ++ rest) reach) (late : more.Attains env rest further) :
    (branch first ended more).Attains env (text ++ rest) (max reach (text.length + further)) := by
  refine ((early.with_outcome found).and late).mono fun fuel both here action whole front => ?_
  rintro ⟨begun, next, rfl, isFirst, _, isMore⟩
  refine (both.1 here begun whole front isFirst).bind fun result gained known => ?_
  obtain ⟨got, reached⟩ := known
  cases result with
  | none => cases reached
  | some item =>
    obtain ⟨reads⟩ := reached
    have left : item.stop.rest = rest :=
      List.append_cancel_left (reads.rest_eq.symm.trans front)
    have offset := reads.offset_eq
    refine (both.2 item.stop (next (some item)) (reads.input_eq.trans whole) left
      (isMore item reads.precedes)).mono fun answer others went => ?_
    rw [attained_append, went]
    simp only [attained] at got
    omega

end Rules

/-! ### Parts of expressions -/

section Wrapped

variable {env : Env} {scan : Scan} {input text rest : List Char} {reach : Nat} {atomic : Bool}

theorem Attains.settled (attains : scan.Attains env input reach) :
    (settled scan).Attains env input reach := by
  refine attains.mono fun fuel accounts here action whole front => ?_
  rintro ⟨keep, body, rfl, _, ways⟩
  exact (accounts here body whole front ways).transaction keep

/-- The answer of a rule ends where that of its body does, and nothing is recorded with it. -/
theorem ruleClause_attains (name : String) (kind : RuleKind) (start : Position)
    (result : Option Match) : Action.Accounts env.input (Clause.rule env name kind start result)
      fun answer gained => gained = [] ∧ answer.map Match.stop = result.map Match.stop := by
  cases result with
  | none =>
    exact .after_same (.emit Tracker.same_course env _) fun _ _ => .pure ⟨rfl, rfl⟩
  | some found =>
    refine .after_same (.emit Tracker.same_course env _) fun _ _ => ?_
    dsimp only
    split
    · exact .pure ⟨rfl, rfl⟩
    · exact .after_same (.ofExcept Tracker.same_course _ _) fun span _ => .pure ⟨rfl, rfl⟩

theorem attained_congr {gained : List Recording} {result answer : Option Match}
    (same : answer.map Match.stop = result.map Match.stop) :
    attained gained answer = attained gained result := by
  cases result <;> cases answer <;> simp_all [attained]

theorem Attains.rule {tag : Nat} {name : String} {kind : RuleKind} {body : Expr}
    (attains : (expr env (kind.bodyAtomic atomic) body).Attains env input reach) :
    (expr env atomic (.rule tag name kind body)).Attains env input reach := by
  refine attains.succ fun fuel accounts here action whole front ways => ?_
  rw [ways]
  refine .after_same (.emit Tracker.same_course env _) fun _ _ => ?_
  refine (ruleScope_accounts name kind (accounts here _ whole front rfl)).bind
    fun result gained got => (ruleClause_attains name kind here result).mono ?_
  rintro answer _ ⟨rfl, same⟩
  rw [List.append_nil, attained_congr same]
  exact got

/-- Ignored text is skipped in silence. -/
theorem gap_same {fuel : Nat} {here : Position} {action : Action (Option Match)}
    (ways : gap env atomic fuel here action) : Action.Drifts Tracker.Same action := by
  obtain rfl := ways
  refine .bind Tracker.same_course ?_ fun stop => .pure Tracker.same_course _
  unfold Eval.gapUnless
  split
  · exact .pure Tracker.same_course _
  · refine .bind Tracker.same_course ?_ fun result => .pure Tracker.same_course _
    cases fuel with
    | zero => exact .exhausted
    | succ fuel => exact .ignored env fuel here false

theorem gap_attains (takes : (gap env atomic).Takes env input (some text)) :
    (gap env atomic).Attains env input text.length :=
  takes.attains_of_same fun _ _ _ => gap_same

end Wrapped

/-! ### Repetitions -/

section Repetitions

variable {env : Env} {atomic : Bool} {body : Expr} {min count size : Nat}
  {input text rest : List Char} {reach further : Nat}

/-- A round that fails is the last one, and what is answered then gets no further. -/
theorem Attains.turn_missed (missed : (expr env atomic body).Takes env input none)
    (early : (expr env atomic body).Attains env input reach) :
    (turn env atomic body min (size + 1) count).Attains env input reach := by
  refine Attains.refine ?_ (turn_opens size count)
  unfold closes
  split
  · exact .branch_quits missed early
  · -- To answer with the matches there are records nothing.
    rw [← Nat.max_zero reach]
    exact .branch_missed missed early stays_attains

theorem Attains.turn_found (unlimited : env.repeatLimit = none)
    (found : (expr env atomic body).Takes env (text ++ rest) (some text))
    (early : (expr env atomic body).Attains env (text ++ rest) reach)
    (late : (branch (gap env atomic) quits (turn env atomic body min size (count + 1))).Attains env
      rest further) :
    (turn env atomic body min (size + 1) count).Attains env (text ++ rest)
      (max reach (text.length + further)) := by
  refine Attains.refine ?_ (turn_opens size count)
  rw [rounds_of_unlimited unlimited]
  exact .branch_found found early late

theorem Attains.rep (size : Nat)
    (attains : (turn env atomic body min size 0).Attains env input reach) :
    (expr env atomic (.rep body min none)).Attains env input reach := by
  refine (attains.and (Eventually.above size)).succ fun fuel both here action whole front ways => ?_
  obtain ⟨accounts, enough⟩ := both
  obtain ⟨left, rfl⟩ := Nat.exists_eq_add_of_le' (Nat.lt_of_le_of_lt (Nat.zero_le size) enough)
  refine accounts here action whole front ⟨here, #[], left, .refl here, rfl, by omega, ?_⟩
  rw [ways]
  exact repetition_eq _ here here left #[]

end Repetitions

/-! ### Terminals -/

section Terminals

variable {env : Env} {atomic : Bool} {input : List Char}

/-- How many characters of the text the input goes on with. -/
def agreeing : (text input : List Char) → Nat
  | [], _ | _ :: _, [] => 0
  | c :: text, d :: input => if d = c then agreeing text input + 1 else 0

theorem agreeing_append (text rest : List Char) : agreeing text (text ++ rest) = text.length := by
  induction text with
  | nil => cases rest <;> rfl
  | cons c text ih => rw [List.cons_append, agreeing, if_pos rfl, ih, List.length_cons]

theorem agreement_eq (text : List Char) (input : Input) (place : Nat) :
    input.agreement id place text = agreeing text (input.chars.toList.drop place) := by
  induction text generalizing place with
  | nil => cases input.chars.toList.drop place <;> rfl
  | cons c text ih =>
    rw [Input.agreement]
    cases found : input.chars[place]? with
    | none =>
      rw [List.drop_eq_nil_of_le (by simpa using Array.getElem?_eq_none_iff.mp found)]
      rfl
    | some d =>
      obtain ⟨inside, rfl⟩ := Array.getElem?_eq_some_iff.mp found
      rw [List.drop_eq_getElem_cons (by simpa using inside), agreeing, ih]
      simp

/-- What a terminal records that fails inside the input. -/
theorem missed_attains {here : Position} (whole : here.input = env.input) (failure : Failure)
    {offset reach : Nat} (bound : offset ≤ here.input.size) (same : offset = here.offset + reach) :
    Action.Accounts env.input (Terminal.missed failure offset) fun result gained =>
      attained gained result = here.offset + reach := by
  have inside : (offset : Int) ≤ env.input.size := whole ▸ Int.ofNat_le.mpr bound
  refine (Action.Accounts.record failure (Int.natCast_nonneg offset) inside none nofun).bind ?_
  rintro _ _ ⟨record, rfl⟩
  refine .pure ?_
  simp only [attained, List.append_nil, furthestOffset_singleton]
  omega

theorem found_attains {here stop : Position} (kind : TerminalKind) (value : String) {reach : Nat}
    (same : stop.offset = here.offset + reach) :
    Action.Accounts env.input (Terminal.found kind here stop value) fun result gained =>
      attained gained result = here.offset + reach := by
  refine .after_same (.ofExcept Tracker.same_course _ _) fun span _ => .pure ?_
  change max (-1) (stop.offset : Int) = _
  omega

theorem literal_attains (text : String) :
    (expr env atomic (.literal text)).Attains env input (agreeing text.toList input) := by
  refine (Eventually.above 0).succ fun fuel _ here action whole front ways => ?_
  rw [ways]
  simp only [eval, Expr.literal, Terminal.attempt]
  have agreed : here.mismatchOffset text false = here.offset + agreeing text.toList input := by
    rw [Position.mismatchOffset, if_neg Bool.false_ne_true, agreement_eq, ← front]
    rfl
  split
  next stop matched =>
    have advances := Position.matchLiteral_advances matched
    refine found_attains .literal text (advances.offset_eq.trans ?_)
    rw [← front, (Position.reads_of_matchLiteral matched).rest_eq, agreeing_append]
  next differs =>
    exact missed_attains whole _ (here.mismatchOffset_le text false) agreed

/-- How many characters of a class there are at the front of the input, if there is at most one. -/
def lead (accept : Char → Bool) : List Char → Nat
  | [] => 0
  | c :: _ => if accept c then 1 else 0

/-- On all inputs, the scan gets beyond the first character if the class accepts it, and otherwise
not at all. -/
def AttainsOne (env : Env) (scan : Scan) (accept : Char → Bool) : Prop :=
  ∀ input, scan.Attains env input (lead accept input)

theorem matchChar_lead (accept : Char → Bool) (here : Position) :
    (∀ stop c, here.matchChar accept = some (stop, c) →
      stop.offset = here.offset + lead accept here.rest) ∧
    (here.matchChar accept = none → lead accept here.rest = 0) := by
  unfold Position.matchChar
  split
  next inside =>
    rw [(Position.reads_of_lt inside).rest_eq]
    simp only [List.singleton_append, lead]
    split
    next accepted => exact ⟨by rintro stop c ⟨⟩; rfl, by rintro ⟨⟩⟩
    next refused => exact ⟨by rintro _ _ ⟨⟩, fun _ => rfl⟩
  next outside =>
    rw [Position.rest_of_not_lt outside]
    exact ⟨by rintro _ _ ⟨⟩, fun _ => rfl⟩

theorem character_attains {accept : Char → Bool} {here : Position} (whole : here.input = env.input)
    (kind : TerminalKind) (failure : Failure) : Action.Accounts env.input
      (match here.matchChar accept with
        | some (stop, c) => Terminal.found kind here stop c.toString
        | none => Terminal.missed failure here.offset)
      fun result gained => attained gained result = here.offset + lead accept here.rest := by
  obtain ⟨found, missed⟩ := matchChar_lead accept here
  split
  next stop c matched => exact found_attains kind _ (found stop c matched)
  next differs => exact missed_attains whole failure here.offset_le (by rw [missed differs]; rfl)

theorem charRange_attainsOne (low high : Char) :
    (expr env atomic (.charRange low high)).AttainsOne env fun c => low ≤ c && c ≤ high := by
  intro input
  refine (Eventually.above 0).succ fun fuel _ here action whole front ways => ?_
  rw [ways, ← front]
  exact character_attains whole .char _

theorem any_attainsOne : (expr env atomic (.terminal .any)).AttainsOne env fun _ => true := by
  intro input
  refine (Eventually.above 0).succ fun fuel _ here action whole front ways => ?_
  rw [ways, ← front]
  exact character_attains whole .any _

theorem literal_attainsOne {text : String} {c : Char} (single : text.toList = [c]) :
    (expr env atomic (.literal text)).AttainsOne env (· == c) := by
  intro input
  have attains : (expr env atomic (.literal text)).Attains env input _ := literal_attains text
  rw [single] at attains
  cases input with
  | nil => exact attains
  | cons d rest => simpa [agreeing, lead] using attains

theorem insensitive_attainsOne {text : String} {c : Char} (single : text.toList = [c]) :
    (expr env atomic (.terminal (.insensitive text))).AttainsOne env
      fun d => Text.lower [d] = Text.lower [c] := by
  intro input
  refine (Eventually.above 0).succ fun fuel _ here action whole front ways => ?_
  rw [ways]
  simp only [eval, Terminal.attempt]
  obtain ⟨found, missed⟩ := matchIgnoringCase_eq here text
  rw [front, single] at found missed
  by_cases alike : Resembles [c] input
  · obtain ⟨stop, actual, matched, reads⟩ := found alike
    obtain ⟨enough, same⟩ := alike
    rw [matched]
    refine found_attains .insens actual (reads.offset_eq.trans ?_)
    cases input with
    | nil => simp at enough
    | cons d rest =>
      have accepted : Text.lower [d] = Text.lower [c] := by simpa using same
      simp [lead, accepted]
  · rw [missed alike]
    refine missed_attains whole _ (here.mismatchOffset_le text true) ?_
    have next : here.input.chars[here.offset]? = input.head? := by
      rw [← front, Position.rest, List.head?_drop, Array.getElem?_toList]
    rw [Position.mismatchOffset, if_pos rfl, single, Input.agreement, next]
    cases input with
    | nil => rfl
    | cons d rest =>
      -- A text of one letter is lower-cased as that letter is.
      have refused : ¬Text.lower [d] = Text.lower [c] := by simpa [Resembles] using alike
      have differs : ¬(Text.lowerChar d == Text.lowerChar c) = true := by
        simpa [Text.lower, Text.lowerFrom, Text.lowerChar] using refused
      rw [List.head?_cons, lead, if_neg (by simpa using refused)]
      exact congrArg _ (if_neg differs)

end Terminals

/-! ### Classes -/

section Classes

variable {env : Env} {atomic : Bool} {first ended : Scan} {accept other : Char → Bool}
  {expr body : Expr} {rest : List Expr}

theorem AttainsOne.congr {scan : Scan} (attains : scan.AttainsOne env accept)
    (same : ∀ c, accept c = other c) : scan.AttainsOne env other := by
  rwa [← funext same]

section

variable (takes : first.TakesOne env accept) (early : first.AttainsOne env accept)

include takes early

theorem AttainsOne.found {more : Scan} {c : Char} (accepted : accept c = true)
    {rest : List Char} (stopped : more.Attains env rest 0) :
    (branch first ended more).Attains env (c :: rest) 1 := by
  have found := takes (c :: rest)
  have attains := early (c :: rest)
  rw [leading, if_pos accepted] at found
  rw [lead, if_pos accepted] at attains
  have both : (branch first ended more).Attains env ([c] ++ rest) (max 1 (1 + 0)) :=
    Attains.branch_found found attains stopped
  exact both

theorem AttainsOne.missed {input : List Char} (refused : leading accept input = none) :
    first.Takes env input none ∧ first.Attains env input 0 := by
  have missed := takes input
  have attains := early input
  rw [refused] at missed
  refine ⟨missed, ?_⟩
  cases input with
  | nil => exact attains
  | cons c rest =>
    rw [leading] at refused
    split at refused
    · cases refused
    next differs =>
      rw [lead, if_neg differs] at attains
      exact attains

theorem AttainsOne.orElse (late : ended.AttainsOne env other) :
    (branch first ended stays).AttainsOne env fun c => accept c || other c := by
  intro input
  have missed : leading accept input = none →
      (branch first ended stays).Attains env input (max 0 (lead other input)) := by
    intro refused
    obtain ⟨missed, attains⟩ := early.missed takes refused
    exact .branch_missed missed attains (late input)
  rw [Nat.zero_max] at missed
  cases input with
  | nil => exact missed rfl
  | cons c rest =>
    by_cases accepted : accept c = true
    · simpa [lead, accepted] using early.found takes accepted stays_attains
    · simpa [lead, accepted] using missed (if_neg accepted)

/-- The last alternative is followed by no other one. -/
theorem AttainsOne.orQuit : (branch first quits stays).AttainsOne env accept := by
  intro input
  have missed : leading accept input = none → (branch first quits stays).Attains env input 0 := by
    intro refused
    obtain ⟨missed, attains⟩ := early.missed takes refused
    exact .branch_quits missed attains
  cases input with
  | nil => exact missed rfl
  | cons c rest =>
    by_cases accepted : accept c = true
    · simpa [lead, accepted] using early.found takes accepted stays_attains
    · simpa [lead, accepted] using missed (if_neg accepted)

end

section

variable (takes : (Scan.expr env atomic expr).TakesOne env accept)
  (early : (Scan.expr env atomic expr).AttainsOne env accept)

include takes early

theorem AttainsOne.choice (late : (alternatives env atomic rest).AttainsOne env other) :
    (Scan.expr env atomic (.choice expr rest)).AttainsOne env fun c => accept c || other c :=
  fun input => (early.orElse takes late input).unfold choice_opens

theorem AttainsOne.alternatives_cons (late : (alternatives env atomic rest).AttainsOne env other) :
    (alternatives env atomic (expr :: rest)).AttainsOne env fun c => accept c || other c :=
  fun input => (early.orElse takes late input).refine alternatives_cons_opens

theorem AttainsOne.alternatives_last : (alternatives env atomic [expr]).AttainsOne env accept := by
  intro input
  refine Attains.refine (early.orQuit takes input) ?_
  exact alternatives_cons_opens.trans (branch_refines alternatives_nil_quits (.refl _))

end

theorem literal_char_attainsOne (mark : Char) :
    (Scan.expr env atomic (.literal mark.toString)).AttainsOne env (· == mark) :=
  literal_attainsOne (by simp)

theorem alternatives_literals_attainsOne (mark : Char) (marks : List Char) :
    (alternatives env atomic ((mark :: marks).map fun mark => .literal mark.toString)).AttainsOne
      env fun c => decide (c ∈ mark :: marks) := by
  induction marks generalizing mark with
  | nil =>
    refine ((literal_char_attainsOne mark).alternatives_last
      (literal_char_takesOne mark)).congr fun c => ?_
    simp [Bool.beq_eq_decide_eq]
  | cons next marks ih =>
    refine ((literal_char_attainsOne mark).alternatives_cons
      (literal_char_takesOne mark) (ih next)).congr fun c => ?_
    simp [Bool.beq_eq_decide_eq]

/-- One of two or more marks. -/
theorem choice_literals_attainsOne (mark next : Char) (marks : List Char) :
    (Scan.expr env atomic (.choice (.literal mark.toString)
      ((next :: marks).map fun mark => .literal mark.toString))).AttainsOne env
        fun c => decide (c ∈ mark :: next :: marks) := by
  refine ((literal_char_attainsOne mark).choice (literal_char_takesOne mark)
    (alternatives_literals_attainsOne next marks)).congr fun c => ?_
  simp [Bool.beq_eq_decide_eq]

/-- What is tried in a negative lookahead is not recorded, and where the lookahead fails, that is
recorded at its own place. -/
theorem negative_attains (input : List Char) :
    (Scan.expr env atomic (.negative body)).Attains env input 0 := by
  refine (Eventually.above 0).succ fun fuel _ here action whole front ways => ?_
  rw [ways, eval_negative]
  refine .after_same (.negative_body env fuel here atomic body) fun result _ => ?_
  cases result with
  | none =>
    refine .after_same (.ofExcept Tracker.same_course _ _) fun span _ => .pure ?_
    change max (-1) (here.offset : Int) = _
    omega
  | some found =>
    refine .after_same (.textOf Tracker.same_course env body) fun label _ => ?_
    have inside : (here.offset : Int) ≤ env.input.size := whole ▸ Int.ofNat_le.mpr here.offset_le
    refine (Action.Accounts.record (.predicate false label) (Int.natCast_nonneg _) inside _
      fun _ => ⟨label, rfl⟩).bind ?_
    rintro _ _ ⟨record, rfl⟩
    refine .pure ?_
    simp only [attained, List.append_nil, furthestOffset_singleton]
    omega

/-- A character that is in no class. -/
theorem AttainsOne.except (plain : body.shownCells = [])
    (inner : (Scan.expr env true body).TakesOne env accept) :
    (Scan.expr env true (.seq (.negative body) [.terminal .any])).AttainsOne env
      fun c => !accept c := by
  intro input
  have last : ∀ input, (items env true []).Attains env input 0 :=
    fun input => stays_attains.refine items_nil_stays
  cases input with
  | nil =>
    -- Nothing stands in the way at the end of the input, where no character follows.
    have ahead : (Scan.expr env true (.negative body)).Takes env ([] ++ []) (some []) :=
      inner.absent plain rfl
    have ended : (items env true [.terminal .any]).Attains env [] 0 :=
      ((any_attainsOne []).branch_quits (any_takesOne [])).refine items_atomic_opens
    exact (Attains.branch_found ahead (negative_attains _) ended).unfold seq_opens
  | cons c rest =>
    by_cases accepted : accept c = true
    · have ahead := inner.present plain accepted rest
      simpa [lead, accepted] using
        (Attains.branch_quits ahead (negative_attains _)).unfold seq_opens
    · have ahead : (Scan.expr env true (.negative body)).Takes env ([] ++ c :: rest) (some []) :=
        inner.absent plain (if_neg accepted)
      have one : (items env true [.terminal .any]).Attains env (c :: rest) 1 :=
        (any_attainsOne.found any_takesOne rfl (last rest)).refine items_atomic_opens
      simpa [lead, accepted] using
        (Attains.branch_found ahead (negative_attains _) one).unfold seq_opens

end Classes

end Scan

end Peg
