import Peg.Proofs.Eval.Termination
import Peg.Proofs.Parse.Completion
import Peg.Proofs.Parse.ShowsAll
import Peg.Proofs.Tree.Entries

/-!
# Parsing without left recursion terminates

The machine ends where the recursive evaluation does, so that it matches a root in the end if no
chain of left calls comes back to where it started. A parse matches the root, ignored text and the
end of the text, each of them once.

Whether a grammar is of this kind can be told from a rank that falls with every left call. Such a
grammar may still be recursive behind what it consumes, and then the text of an expression that it
is made of may have no end. A parse that is to show one is broken off.
-/
namespace Peg

open Peg.Action (Fulfils Halts)

/-! ### Entry points -/

section Entries

variable {env : Env} {root : Expr}

/-- Matching halts on the machine if it does by recursion. -/
theorem run_halts {expr : Expr} {start : Position} {atomic : Bool} {holds : Option Match → Prop}
    (halts : Halts (fun fuel => eval env fuel expr start atomic) holds) :
    Halts (fun fuel => run env fuel expr start atomic) holds := by
  refine ⟨fun le => run_approximates env expr le start atomic,
    fun {moves before after value} ended => ?_, fun before => ?_⟩
  · have finishes : run env moves expr start atomic before ≠ .exhausted := fun endless =>
      nomatch ended.symm.trans endless
    obtain ⟨fuel, same⟩ := Machine.eval_of_run finishes
    exact halts.sound (same.trans ended)
  · obtain ⟨fuel, ended⟩ := halts.ends before
    obtain ⟨moves, same⟩ := Machine.run_of_eval ended
    exact ⟨moves, same ▸ ended⟩

theorem reportFailure_halts : Halts (fun _ => reportFailure env) fun _ => True :=
  halts_of_ends (.bind (.gets _) fun _ _ => .bind (.emit env _) fun _ _ => .pure trivial)

theorem run_terminal_halts (leaf : Terminal) (start : Position) :
    Halts (fun fuel => run env fuel (.terminal leaf) start false)
      (Builds env (.terminal leaf) false start) :=
  run_halts (eval_halts_of_parts _ false start (.inr nofun) fun _ _ calls => nomatch calls)

variable (acyclic : ∀ config, Entered env root config →
    ¬Relation.TransGen (LeftCalls env) config config)
  (bounded : env.repeatLimit ≠ none ∨ ∀ body min atomic,
    Entered env root (.rep body min none, atomic) → ¬PossiblyEmpty env body)

include acyclic bounded

theorem parsePartial_halts : Halts (fun fuel => parsePartial env fuel root) fun _ => True := by
  have matched := run_halts (eval_halts acyclic bounded (.inl .refl) (.start env.input))
  refine matched.bind fun result _ => ?_
  cases result with
  | none => exact reportFailure_halts
  | some found => exact .pure trivial

theorem matchRest_halts (here : Position) :
    Halts (fun fuel => matchRest env fuel root here) fun _ => True := by
  unfold matchRest
  split
  · exact .pure trivial
  next loose =>
    have skipped := run_halts (eval_halts acyclic bounded (.inr ⟨loose, .refl⟩) here)
    exact skipped.bind fun _ _ => .pure trivial

theorem parse_halts : Halts (fun fuel => parse env fuel root) fun _ => True := by
  refine (parsePartial_halts acyclic bounded).bind fun parsed _ => ?_
  cases parsed with
  | error report => exact .pure trivial
  | ok found =>
    refine (matchRest_halts acyclic bounded found.stop).bind fun stop _ => ?_
    refine (run_terminal_halts .endOfInput stop).bind fun result _ => ?_
    cases result with
    | none => exact reportFailure_halts
    | some last => exact .pure trivial

end Entries

/-- If no chain of left calls that a parse can come to leads back to where it started, and if
repetitions are limited or those without a greatest number of matches repeat nothing that may be
empty, then a parse of any text, of the whole or of a prefix, comes to an end. If all texts end as
well, it is not broken off for want of one. -/
theorem parsing_terminates_where_texts_end (env : Env) (root : Expr)
    (acyclic : ∀ config, Entered env root config →
      ¬Relation.TransGen (LeftCalls env) config config)
    (bounded : env.repeatLimit ≠ none ∨ ∀ body min atomic,
      Entered env root (.rep body min none, atomic) → ¬PossiblyEmpty env body) (state : State) :
    (∃ enough, ∀ fuel, enough ≤ fuel → parse env fuel root state ≠ .exhausted ∧
        parsePartial env fuel root state ≠ .exhausted) ∧
      (env.definitions.TextsEnd → ∀ fuel, ¬(parse env fuel root state).Endless ∧
        ¬(parsePartial env fuel root state).Endless) := by
  obtain ⟨whole, enoughWhole⟩ := (parse_halts acyclic bounded).enough state
  obtain ⟨front, enoughFront⟩ := (parsePartial_halts acyclic bounded).enough state
  refine ⟨⟨max whole front, fun fuel le => ⟨?_, ?_⟩⟩, fun texts fuel => ⟨?_, ?_⟩⟩
  · have ended := enoughWhole fuel (Nat.le_trans (Nat.le_max_left _ _) le)
    exact ended.1 ▸ ended.2
  · have ended := enoughFront fuel (Nat.le_trans (Nat.le_max_right _ _) le)
    exact ended.1 ▸ ended.2
  · exact Action.ShowsAll.parse texts fuel root state
  · exact Action.ShowsAll.parsePartial texts fuel root state

/-! ### A grammar of this kind -/

/-- Where a rank falls with every left call, no chain of them comes back. -/
theorem acyclic_of_rank {env : Env} {inside : Expr × Bool → Prop} (rank : Expr → Nat)
    (closed : ∀ config part, inside config → LeftCalls env config part → inside part)
    (falls : ∀ config part, inside config → LeftCalls env config part → rank part.1 < rank config.1)
    {config : Expr × Bool} (entered : inside config) :
    ¬Relation.TransGen (LeftCalls env) config config := by
  have lower : ∀ part, Relation.TransGen (LeftCalls env) config part →
      inside part ∧ rank part.1 < rank config.1 := by
    intro part chain
    induction chain with
    | single calls => exact ⟨closed _ _ entered calls, falls _ _ entered calls⟩
    | tail _ calls ih => exact ⟨closed _ _ ih.1 calls, (falls _ _ ih.1 calls).trans ih.2⟩
  exact fun cycle => Nat.lt_irrefl _ (lower config cycle).2

/-- What is behind an item that is never empty is not called left. -/
theorem not_passed {env : Env} {first : Expr} (solid : ¬PossiblyEmpty env first)
    {items before after : List Expr} (split : first :: items = before ++ after)
    (started : before ≠ []) (passed : ∀ item ∈ before, PossiblyEmpty env item) : False := by
  obtain ⟨item, before, rfl⟩ := List.exists_cons_of_ne_nil started
  obtain ⟨rfl, _⟩ := List.cons.inj split
  exact solid (passed _ List.mem_cons_self)

/-- Letters, and lists of letters and lists in brackets. -/
def nested : Expr :=
  .choice (.seq (.literal "(") [.rep (.ref "nested") 0 none, .literal ")"]) [.literal "x"]

/-- Lists with spaces in them, and no limit on repetitions. -/
def nestedEnv (input : Input) : Env :=
  { input, rules := [("nested", nested)], whitespace := some (.literal " ") }

/-- All that a parse of lists may ask for. -/
def nestedParts : List Expr :=
  [.ref "nested", nested, .seq (.literal "(") [.rep (.ref "nested") 0 none, .literal ")"],
    .literal "(", .rep (.ref "nested") 0 none, .literal ")", .literal "x", .ignored, .literal " "]

/-- A list starts with a bracket, and nothing is asked for in front of it. -/
def nestedRank : Expr → Nat
  | .rep .. => 4
  | .ref _ => 3
  | .choice .. => 2
  | .seq .. | .ignored => 1
  | _ => 0

section Nested

variable {input : Input}

theorem seq_inside {first : Expr} {rest : List Expr} (inside : .seq first rest ∈ nestedParts) :
    first = .literal "(" ∧ rest = [.rep (.ref "nested") 0 none, .literal ")"] := by
  simpa [nestedParts, nested, Expr.literal] using inside

theorem choice_inside {first : Expr} {rest : List Expr}
    (inside : .choice first rest ∈ nestedParts) :
    first = .seq (.literal "(") [.rep (.ref "nested") 0 none, .literal ")"] ∧
      rest = [.literal "x"] := by
  simpa [nestedParts, nested, Expr.literal] using inside

theorem rep_inside {body : Expr} {min : Nat} {max : Option Nat}
    (inside : .rep body min max ∈ nestedParts) : body = .ref "nested" := by
  have parts : body = .ref "nested" ∧ min = 0 ∧ max = none := by
    simpa [nestedParts, nested, Expr.literal] using inside
  exact parts.1

theorem content_inside {name : String} {content : Expr} (inside : .ref name ∈ nestedParts)
    (defined : (nestedEnv input).rules.lookup name = some content) : content = nested := by
  obtain rfl : name = "nested" := by
    simpa [nestedParts, nested, Expr.literal] using inside
  simpa [nestedEnv, eq_comm] using defined

theorem nested_skippers {skipper : Expr} (among : skipper ∈ (nestedEnv input).skippers) :
    skipper = .literal " " := by
  simpa [Env.skippers, nestedEnv] using among

theorem nested_closed (config part : Expr × Bool) (inside : config.1 ∈ nestedParts)
    (calls : Calls (nestedEnv input) config part) : part.1 ∈ nestedParts := by
  cases calls with
  | @seqItem first part rest before after atomic split _ =>
    obtain ⟨rfl, rfl⟩ := seq_inside inside
    have among : part ∈ [.literal "(", .rep (.ref "nested") 0 none, .literal ")"] := by
      rw [split]
      exact List.mem_append_right _ List.mem_cons_self
    simp only [List.mem_cons, List.not_mem_nil, or_false] at among
    rcases among with rfl | rfl | rfl <;> simp [nestedParts]
  | choice among =>
    obtain ⟨rfl, rfl⟩ := choice_inside inside
    simp only [List.mem_cons, List.not_mem_nil, or_false] at among
    rcases among with rfl | rfl <;> simp [nestedParts]
  | seqGap | repGap => simp [nestedParts]
  | rep => simp [nestedParts, rep_inside inside]
  | ref defined => simp [nestedParts, content_inside inside defined]
  | skipper among => simp [nestedParts, nested_skippers among]
  | opt | positive | negative | restorable | push | rule | lazy | pair =>
    simp [nestedParts, nested, Expr.literal] at inside

theorem bracket_not_possiblyEmpty {env : Env} : ¬PossiblyEmpty env (.literal "(") := by
  rintro ⟨empty⟩
  cases empty

theorem nested_not_possiblyEmpty : ¬PossiblyEmpty (nestedEnv input) (.ref "nested") := by
  intro empty
  cases empty with
  | ref defined empty =>
    rw [content_inside List.mem_cons_self defined] at empty
    cases empty with
    | choice among empty =>
      simp only [List.mem_cons, List.not_mem_nil, or_false] at among
      rcases among with rfl | rfl
      · cases empty with
        | seq parts => exact bracket_not_possiblyEmpty (parts _ List.mem_cons_self)
      · cases empty with
        | terminal empty => cases empty

theorem nestedRank_falls (config part : Expr × Bool) (inside : config.1 ∈ nestedParts)
    (calls : LeftCalls (nestedEnv input) config part) :
    nestedRank part.1 < nestedRank config.1 := by
  cases calls with
  | @seqItem first part rest before after atomic split passed =>
    obtain ⟨rfl, rfl⟩ := seq_inside inside
    by_cases started : before = []
    · subst started
      obtain ⟨rfl, _⟩ := List.cons.inj split
      exact Nat.zero_lt_one
    · exact (not_passed bracket_not_possiblyEmpty split started passed).elim
  | seqGap split started passed =>
    obtain ⟨rfl, rfl⟩ := seq_inside inside
    exact (not_passed bracket_not_possiblyEmpty split started passed).elim
  | choice among =>
    obtain ⟨rfl, rfl⟩ := choice_inside inside
    simp only [List.mem_cons, List.not_mem_nil, or_false] at among
    rcases among with rfl | rfl
    · exact Nat.lt_add_one 1
    · exact Nat.zero_lt_two
  | rep =>
    obtain rfl := rep_inside inside
    exact Nat.lt_add_one 3
  | repGap _ _ empty =>
    obtain rfl := rep_inside inside
    exact absurd empty nested_not_possiblyEmpty
  | ref defined =>
    rw [content_inside inside defined]
    exact Nat.lt_add_one 2
  | skipper among =>
    rw [nested_skippers among]
    exact Nat.zero_lt_one
  | opt | positive | negative | restorable | push | rule | lazy | pair =>
    simp [nestedParts, nested, Expr.literal] at inside

theorem nested_of_entered {config : Expr × Bool}
    (entered : Entered (nestedEnv input) (.ref "nested") config) : config.1 ∈ nestedParts :=
  @Entered.inside _ _ _ (fun config => config.1 ∈ nestedParts) entered List.mem_cons_self
    (by simp [nestedParts]) nested_closed

end Nested

/-- Lists are parsed in the end, however deep they are and whatever else the text holds. -/
theorem nested_lists_terminate :
    let env := nestedEnv (.ofString 0 "(x (x)) y")
    ∃ enough, ∀ fuel, enough ≤ fuel →
      (parse env fuel (.ref "nested") {} ≠ .exhausted ∧
          ¬(parse env fuel (.ref "nested") {}).Endless) ∧
        parsePartial env fuel (.ref "nested") {} ≠ .exhausted ∧
          ¬(parsePartial env fuel (.ref "nested") {}).Endless := by
  intro env
  have terminates := parsing_terminates_where_texts_end env (.ref "nested")
    (fun config reached => acyclic_of_rank nestedRank (fun config part inside calls =>
      nested_closed config part inside calls.calls) nestedRank_falls (nested_of_entered reached))
    (.inr fun body min atomic reached =>
      rep_inside (nested_of_entered reached) ▸ nested_not_possiblyEmpty) {}
  obtain ⟨⟨enough, ends⟩, shown⟩ := terminates
  have shown := shown Definitions.textsEnd_nil
  exact ⟨enough, fun fuel le =>
    ⟨⟨(ends fuel le).1, (shown fuel).1⟩, (ends fuel le).2, (shown fuel).2⟩⟩

/-! ### A text without an end -/

/-- A letter, and perhaps another list of letters. -/
def letterList : Expr := .lazy ⟨"letters", some 0⟩

/-- The definition of lists of letters, and a text without any. -/
def letterListEnv : Env where
  input := ⟨0, #['b']⟩
  definitions := [("letters", .ok (.seq (.literal "a") [.opt letterList]))]

/-- All that a look ahead for a list of letters may ask for. -/
def letterListParts : List Expr :=
  [.positive letterList, letterList, .seq (.literal "a") [.opt letterList], .literal "a",
    .opt letterList, .ignored]

/-- A list starts with a letter. -/
def letterListRank : Expr → Nat
  | .positive _ | .opt _ => 3
  | .lazy _ => 2
  | .seq .. => 1
  | _ => 0

section LetterList

theorem letters_seq_inside {first : Expr} {rest : List Expr}
    (inside : .seq first rest ∈ letterListParts) :
    first = .literal "a" ∧ rest = [.opt letterList] := by
  simpa [letterListParts, letterList, Expr.literal] using inside

theorem letters_content {cell : LazyCell} {content : Expr} (inside : .lazy cell ∈ letterListParts)
    (resolved : letterListEnv.definitions.resolve cell = .ok content) :
    content = .seq (.literal "a") [.opt letterList] := by
  obtain rfl : cell = ⟨"letters", some 0⟩ := by
    simpa [letterListParts, letterList, Expr.literal] using inside
  exact (Except.ok.inj resolved).symm

theorem letters_closed (config part : Expr × Bool) (inside : config.1 ∈ letterListParts)
    (calls : Calls letterListEnv config part) : part.1 ∈ letterListParts := by
  cases calls with
  | @seqItem first part rest before after atomic split _ =>
    obtain ⟨rfl, rfl⟩ := letters_seq_inside inside
    have among : part ∈ [.literal "a", .opt letterList] := by
      rw [split]
      exact List.mem_append_right _ List.mem_cons_self
    rcases List.mem_pair.mp among with rfl | rfl <;> simp [letterListParts]
  | seqGap => simp [letterListParts]
  | opt | positive =>
    obtain rfl : _ = letterList := by
      simpa [letterListParts, letterList, Expr.literal] using inside
    simp [letterListParts]
  | lazy resolved => simp [letterListParts, letters_content inside resolved]
  | skipper among => cases among
  | choice | rep | repGap | negative | restorable | push | rule | ref | pair =>
    simp [letterListParts, letterList, Expr.literal] at inside

theorem letter_not_possiblyEmpty {env : Env} : ¬PossiblyEmpty env (.literal "a") := by
  rintro ⟨empty⟩
  cases empty

theorem letterListRank_falls (config part : Expr × Bool) (inside : config.1 ∈ letterListParts)
    (calls : LeftCalls letterListEnv config part) :
    letterListRank part.1 < letterListRank config.1 := by
  cases calls with
  | @seqItem first part rest before after atomic split passed =>
    obtain ⟨rfl, rfl⟩ := letters_seq_inside inside
    by_cases started : before = []
    · subst started
      obtain ⟨rfl, _⟩ := List.cons.inj split
      exact Nat.zero_lt_one
    · exact (not_passed letter_not_possiblyEmpty split started passed).elim
  | seqGap split started passed =>
    obtain ⟨rfl, rfl⟩ := letters_seq_inside inside
    exact (not_passed letter_not_possiblyEmpty split started passed).elim
  | opt | positive =>
    obtain rfl : _ = letterList := by
      simpa [letterListParts, letterList, Expr.literal] using inside
    exact Nat.lt_add_one 2
  | lazy resolved =>
    rw [letters_content inside resolved]
    exact Nat.lt_add_one 1
  | skipper among => cases among
  | choice | rep | repGap | negative | restorable | push | rule | ref | pair =>
    simp [letterListParts, letterList, Expr.literal] at inside

theorem letters_of_entered {config : Expr × Bool}
    (entered : Entered letterListEnv (.positive letterList) config) : config.1 ∈ letterListParts :=
  @Entered.inside _ _ _ (fun config => config.1 ∈ letterListParts) entered List.mem_cons_self
    (by simp [letterListParts]) letters_closed

end LetterList

/-- A look ahead for a list of letters calls nothing left that leads back to it, and there is no
repetition. Where there is no letter it fails, and a parse is broken off, since the list that was
not found shows itself. -/
theorem failed_look_for_letters_is_endless :
    (∀ config, Entered letterListEnv (.positive letterList) config →
      ¬Relation.TransGen (LeftCalls letterListEnv) config config) ∧
    (∀ body min atomic, Entered letterListEnv (.positive letterList) (.rep body min none, atomic) →
      ¬PossiblyEmpty letterListEnv body) ∧
    ∀ fuel, 30 ≤ fuel → (parse letterListEnv fuel (.positive letterList) {}).Endless ∧
      (parsePartial letterListEnv fuel (.positive letterList) {}).Endless := by
  refine ⟨fun config reached => ?_, fun body min atomic reached => ?_, fun fuel le => ⟨?_, ?_⟩⟩
  · exact acyclic_of_rank letterListRank (fun config part inside calls =>
      letters_closed config part inside calls.calls) letterListRank_falls
      (letters_of_entered reached)
  · have inside := letters_of_entered reached
    simp [letterListParts, letterList, Expr.literal] at inside
  · have broken : (parse letterListEnv 30 (.positive letterList) {}).Endless := ⟨_, rfl⟩
    exact (parse_approximates letterListEnv _ le).endless broken
  · have broken : (parsePartial letterListEnv 30 (.positive letterList) {}).Endless := ⟨_, rfl⟩
    exact (parsePartial_approximates letterListEnv _ le).endless broken

end Peg
