import Peg.Proofs.Catalogue.Ownership

/-!
# Where parses of a grammar start

A parse of a grammar starts at the start of the grammar, at the rule of a name, or at a rule that is
given. A name is looked up in the table, and of a given rule it is checked that the table has it.
The start of the grammar is checked when it is named. By default it is a rule that is added to the
table, and what is in a table stays there. Only what is given for the start when a grammar is begun
is never looked up in the table.

## Main result

However a grammar came about, a parse matches a rule that the table holds under its name, or it is
refused before anything is matched, unless it starts at something that was given for the start and
is not in the table.
-/
namespace Peg

/-! ### What a parse matches -/

namespace Grammar

variable (grammar : Grammar) (definitions : Definitions) (forced : List LazyCell) (call : Call)

/-- What is replied to a call by matching an operand, with the rules of the grammar. -/
def reply (origin : Operand) : Reply :=
  let call := { call with settings := grammar.complete call.settings }
  grammar.noteFailure origin call.settings.tracing
    (call.parse grammar.table definitions forced origin)

/-- A parse is refused, or it is replied to by matching what it is to start at. -/
theorem parse_eq (start : Start) : grammar.parse definitions forced start call =
    (grammar.origin start).map (grammar.reply definitions forced call) := by
  unfold parse
  cases grammar.origin start <;> rfl

/-- The parse matches a rule that the table holds under its name. -/
def MatchesOwn (start : Start) : Prop :=
  ∃ rule, grammar.find? rule.name = some rule ∧ grammar.parse definitions forced start call =
    .ok (grammar.reply definitions forced call (.expr rule.toExpr))

/-- The parse is refused: there is no start, no rule of the name, or the rule is of no use here. -/
def Refuses (start : Start) : Prop :=
  ∃ error, grammar.parse definitions forced start call = .error error ∧
    (error = .noStart grammar.name ∨ (∃ name, error = .unknown grammar.name name) ∨
      ∃ rule, error = .foreign rule grammar.name)

end Grammar

/-! ### The start that is kept -/

/-- The start of a grammar is a rule of its table, or what was given when a start was asked for. -/
def Grammar.StartsAt (asked : Option Start) (grammar : Grammar) : Prop :=
  ∀ operand, grammar.start = some operand →
    (∃ rule ∈ grammar.rules, operand = .expr rule.toExpr) ∨ asked = some (.given operand)

namespace Grammar.StartsAt

variable {asked : Option Start} {grammar : Grammar}

theorem of_none (absent : grammar.start = none) : StartsAt asked grammar := by
  intro operand started
  rw [absent] at started
  cases started

/-- A rule that becomes the start is added to the table. -/
theorem insert (known : StartsAt asked grammar) (rule : Rule) :
    StartsAt asked (grammar.insert rule) := by
  intro operand started
  simp only [Grammar.insert, List.mem_append] at started ⊢
  split at started
  · cases started
    exact .inl ⟨rule, .inr (List.mem_singleton_self _), rfl⟩
  · rcases known operand started with ⟨own, member, rfl⟩ | given
    · exact .inl ⟨own, .inl member, rfl⟩
    · exact .inr given

end Grammar.StartsAt

namespace Chronicle

variable {heap : Nat → Rule} {chronicle : Chronicle} {operation : Operation}

/-- Each grammar starts at a rule of its own, or at what it was begun with. -/
def KnowsStarts (chronicle : Chronicle) : Prop :=
  ∀ number, (chronicle.catalogue.grammar number).StartsAt chronicle.starts[number]?

theorem KnowsStarts.empty : KnowsStarts {} := fun _ => .of_none (by simp [Catalogue.grammar])

/-- A grammar that is begun has no start yet, and the others have theirs. -/
theorem KnowsStarts.opened (known : KnowsStarts chronicle) (kept : Kept heap chronicle)
    (operation : Operation) (number : Nat) :
    ((operation.opening chronicle.catalogue).grammar number).StartsAt
      (chronicle.note operation).starts[number]? := by
  cases operation with
  | add | create => simpa [note, Operation.starts, Operation.opening] using known number
  | build name repeatLimit rules start =>
    rw [Operation.opening, Catalogue.grammar_begun]
    split
    · exact .of_none rfl
    next old =>
      rw [← kept.counted] at old
      rcases Nat.lt_or_gt_of_ne old with before | beyond
      · rw [note, List.getElem?_append_left before]
        exact known number
      · have missing := Catalogue.grammar_of_size_le (kept.counted ▸ Nat.le_of_lt beyond)
        exact .of_none (congrArg Grammar.start missing)

/-- Additions keep a start that is known. -/
theorem KnowsStarts.supplied (known : KnowsStarts chronicle) (kept : Kept heap chronicle)
    (possible : operation.Possible heap chronicle.catalogue) (number : Nat) :
    ((operation.supplied chronicle.catalogue).grammar number).StartsAt
      (chronicle.note operation).starts[number]? := by
  refine (Catalogue.adds_addAll _ _ _).preserves (fun catalogue =>
      (catalogue.grammar number).StartsAt (chronicle.note operation).starts[number]?)
    possible.known ?_ (known.opened kept operation number)
  intro catalogue rule _ among _ starts
  -- Only the table of the target grows, and only its start may change.
  rw [Catalogue.grammar_insertRule among]
  split
  next same =>
    subst same
    exact starts.insert rule
  · exact starts

/-- After an operation the starts are known, also that of a grammar which it began. -/
theorem KnowsStarts.note (known : KnowsStarts chronicle) (kept : Kept heap chronicle)
    (possible : operation.Possible heap chronicle.catalogue) :
    KnowsStarts (chronicle.note operation) := by
  intro number
  have supplied := known.supplied kept possible number
  -- Either the rules were all that changed, or a start was asked for and has been chosen.
  rcases operation.perform_snd chronicle.catalogue with
    same | ⟨asked, start, _, only, restarted, chosen⟩
  · rwa [← same] at supplied
  · have among : operation.target chronicle.catalogue <
        (operation.supplied chronicle.catalogue).grammars.size :=
      (Catalogue.adds_addAll _ _ _).size.symm ▸ possible.known
    by_cases target : number = operation.target chronicle.catalogue
    · subst target
      rw [Chronicle.note, restarted, Catalogue.restart, Catalogue.grammar_put among, if_pos rfl]
      rintro _ ⟨⟩
      refine chosen.symm.imp id fun given => ?_
      -- Only a grammar that is begun is asked for a start, and it is the last one.
      cases operation with
      | add | create => cases only
      | build => simp [Operation.target, ← kept.counted, only, given]
    · rwa [Chronicle.note, restarted, Catalogue.grammar_restart_of_ne among _ target]

/-- After any series of operations all starts are known. -/
theorem KnowsStarts.run (history : List Operation) (known : KnowsStarts chronicle)
    (kept : Kept heap chronicle) (possible : Possible heap chronicle history) :
    KnowsStarts (history.foldl Chronicle.note chronicle) := by
  induction history generalizing chronicle with
  | nil => exact known
  | cons operation rest ih =>
    exact ih (known.note kept possible.1) (kept.note possible.1) possible.2

end Chronicle

/-! ### The rule of a parse -/

section

variable {number : Nat} {definitions : Definitions} {forced : List LazyCell} {call : Call}

theorem Operand.eq_of_rule? {operand : Operand} {rule : Rule} (known : operand.rule? = some rule) :
    operand = .expr rule.toExpr := by
  cases operand with
  | expr expr => cases expr <;> cases known; rfl
  | _ => cases known

namespace Grammar

variable {grammar : Grammar} {rule : Rule}

/-- A parse that is to match a rule of the table does so. -/
theorem matchesOwn_of_mem {start : Start} (distinct : grammar.ruleNames.Nodup)
    (member : rule ∈ grammar.rules) (origin : grammar.origin start = .ok (.expr rule.toExpr)) :
    grammar.MatchesOwn definitions forced call start :=
  ⟨rule, (find?_name_eq_some distinct).mpr member, by rw [parse_eq, origin]; rfl⟩

theorem refuses_of_origin {start : Start} {error : GrammarError}
    (origin : grammar.origin start = .error error)
    (kind : error = .noStart grammar.name ∨ (∃ name, error = .unknown grammar.name name) ∨
      ∃ rule, error = .foreign rule grammar.name) :
    grammar.Refuses definitions forced call start :=
  ⟨error, by rw [parse_eq, origin]; rfl, kind⟩

/-- A name is that of a rule in the table, or it is refused. -/
theorem named_matchesOwn_or_refuses (distinct : grammar.ruleNames.Nodup) (name : String) :
    grammar.MatchesOwn definitions forced call (.named name) ∨
      grammar.Refuses definitions forced call (.named name) := by
  cases found : grammar.find? name with
  | some rule =>
    refine .inl (matchesOwn_of_mem distinct (List.mem_of_find?_eq_some found) ?_)
    simp [origin, get, found, bind, Except.bind, pure, Except.pure]
  | none =>
    have missing : grammar.origin (.named name) = .error (.unknown grammar.name name) := by
      simp [origin, get, found, bind, Except.bind]
    exact .inr (refuses_of_origin missing (.inr (.inl ⟨name, rfl⟩)))

end Grammar

namespace Catalogue.Owned

/-- A rule that is given is one of the table, or it is refused. -/
theorem given_matchesOwn_or_refuses {heap : Nat → Rule} {catalogue : Catalogue} {rule : Rule}
    (owned : Owned heap catalogue) (known : heap rule.tag = rule) :
    (catalogue.grammar number).MatchesOwn definitions forced call (.given (.expr rule.toExpr)) ∨
      (catalogue.grammar number).Refuses definitions forced call (.given (.expr rule.toExpr)) := by
  have here : (Operand.expr rule.toExpr).rule? = some rule := rfl
  by_cases has : (catalogue.grammar number).has rule
  · left
    -- The table has a rule of this identity, and that is the same rule.
    obtain ⟨other, member, same⟩ := List.any_eq_true.mp has
    have identified := owned.identified number other member
    obtain rfl : other = rule := by rw [← identified, beq_iff_eq.mp same, known]
    exact Grammar.matchesOwn_of_mem (owned.distinct number) member
      (by simp only [Grammar.origin, here, has, if_true])
  · right
    exact Grammar.refuses_of_origin (by simp only [Grammar.origin, here, has]; rfl)
      (.inr (.inr ⟨rule.name, rfl⟩))

end Catalogue.Owned

end

/-- Whatever was done to a catalogue, a parse of any of its grammars matches a rule that the table
of this grammar holds under its name, or it is refused before anything is matched. Only what was
given for the start when the grammar was begun is matched as it is if the call names no rule, and
need not be a rule of the table. -/
theorem parse_matches_own_rule (heap : Nat → Rule) (history : List Operation)
    (possible : Chronicle.Possible heap {} history) (number : Nat) (definitions : Definitions)
    (forced : List LazyCell) (call : Call) (start : Start)
    (known : ∀ operand, start = .given operand →
      ∃ rule, operand.rule? = some rule ∧ heap rule.tag = rule) :
    let grammar := (Chronicle.of history).catalogue.grammar number
    grammar.MatchesOwn definitions forced call start ∨
      grammar.Refuses definitions forced call start ∨
      start = .default ∧ ∃ operand,
        (Chronicle.of history).starts[number]? = some (.given operand) ∧
        (∀ rule, operand.rule? = some rule → rule ∉ grammar.rules) ∧
        grammar.parse definitions forced start call =
          .ok (grammar.reply definitions forced call operand) := by
  intro grammar
  have kept : (Chronicle.of history).Kept heap := Chronicle.Kept.run history (.empty heap) possible
  have starts : (Chronicle.of history).KnowsStarts := .run history .empty (.empty heap) possible
  have distinct := kept.owned.distinct number
  cases start with
  | named name => exact (Grammar.named_matchesOwn_or_refuses distinct name).imp_right .inl
  | given operand =>
    obtain ⟨rule, isRule, identified⟩ := known operand rfl
    rw [Operand.eq_of_rule? isRule]
    exact (kept.owned.given_matchesOwn_or_refuses identified).imp_right .inl
  | default =>
    cases chosen : grammar.start with
    | none =>
      exact .inr (.inl (Grammar.refuses_of_origin (by rw [Grammar.origin, chosen]) (.inl rfl)))
    | some operand =>
      have origin : grammar.origin .default = .ok operand := by rw [Grammar.origin, chosen]
      by_cases own : ∃ rule ∈ grammar.rules, operand = .expr rule.toExpr
      · obtain ⟨rule, member, rfl⟩ := own
        exact .inl (Grammar.matchesOwn_of_mem distinct member origin)
      · refine .inr (.inr ⟨rfl, operand, (starts number operand chosen).resolve_left own, ?_, ?_⟩)
        · exact fun rule isRule member => own ⟨rule, member, Operand.eq_of_rule? isRule⟩
        · rw [Grammar.parse_eq, origin]
          rfl

/-- A rule of another grammar is not matched when it is given for a parse. -/
theorem parse_of_rule_of_another_grammar :
    let own : Rule := ⟨0, "a", .normal, .literal "a"⟩
    let other : Rule := ⟨1, "b", .normal, .literal "b"⟩
    let heap (tag : Nat) : Rule := if tag = 0 then own else other
    let history : List Operation := [.build "first" none [.expr own.toExpr] .default,
      .build "second" none [.expr other.toExpr] (.named "b")]
    let call : Call := { text := .text "b" }
    let grammar := (Chronicle.of history).catalogue.grammar 0
    Chronicle.Possible heap {} history ∧
      (grammar.MatchesOwn {} [] call (.given (.expr other.toExpr)) ∨
        grammar.Refuses {} [] call (.given (.expr other.toExpr))) := by
  intro own other heap history call grammar
  have possible : Chronicle.Possible heap {} history := by
    refine ⟨⟨by decide, ?_⟩, ⟨by decide, ?_⟩, trivial⟩
    all_goals rintro _ (_ | ⟨_, ⟨⟩⟩) _ ⟨⟩; rfl
  have known (operand : Operand) (given : Start.given (.expr other.toExpr) = .given operand) :
      ∃ rule, operand.rule? = some rule ∧ heap rule.tag = rule := by
    cases given
    exact ⟨other, rfl, rfl⟩
  rcases parse_matches_own_rule heap history possible 0 {} [] call (.given (.expr other.toExpr))
    known with own | refused | ⟨⟨⟩, -⟩
  · exact ⟨possible, .inl own⟩
  · exact ⟨possible, .inr refused⟩

/-- A rule that is given for the start when a grammar is begun is matched by default, also if the
table does not have it. -/
theorem foreign_start_is_matched :
    let own : Rule := ⟨0, "a", .normal, .literal "a"⟩
    let other : Rule := ⟨1, "b", .normal, .literal "b"⟩
    let heap (tag : Nat) : Rule := if tag = 0 then own else other
    let history : List Operation :=
      [.build "grammar" (some 1024) [.expr own.toExpr] (.given (.expr other.toExpr))]
    let call : Call := { text := .text "b" }
    let grammar := (Chronicle.of history).catalogue.grammar 0
    Chronicle.Possible heap {} history ∧ (Operation.perform {} history[0]).1.fails = false ∧
      ¬ (grammar.MatchesOwn {} [] call .default ∨ grammar.Refuses {} [] call .default) := by
  intro own other heap history call grammar
  have possible : Chronicle.Possible heap {} history := by
    refine ⟨⟨by decide, ?_⟩, trivial⟩
    rintro _ (_ | ⟨_, ⟨⟩⟩) _ ⟨⟩; rfl
  have matched : (grammar.parse {} [] .default call).toOption.any (·.answer.isOk) = true := by
    decide +kernel
  refine ⟨possible, by decide, ?_⟩
  rintro (⟨rule, found, same⟩ | ⟨error, same, -⟩)
  · -- The only rule of the table is `own`, which does not match the text.
    have member : rule ∈ [own] := List.mem_of_find?_eq_some found
    obtain rfl : rule = own := List.mem_singleton.mp member
    rw [same] at matched
    exact absurd matched (by decide +kernel)
  · rw [same] at matched
    cases matched

end Peg
