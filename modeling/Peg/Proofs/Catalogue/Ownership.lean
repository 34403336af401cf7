import Peg.Proofs.Catalogue.Additions
import Mathlib.Data.List.Nodup

/-!
# Which grammar a rule belongs to

Grammars are built, also such as cannot be completed, and rules are added to them, also such as are
refused. Throughout, a rule belongs to the grammar whose table holds it, and to no other.

A chronicle notes beside the catalogue what was added to which grammar, in this order, and with
which start each grammar was asked for. A heap says which rule stands behind each tag: no two rules
of a chronicle have the same tag.
-/

namespace Peg

/-! ### Tables -/

namespace Grammar

variable {grammar : Grammar} {rule : Rule}

/-- The first rule in the table that does not say what is ignored. -/
def leading (grammar : Grammar) : Option Operand :=
  (grammar.rules.find? fun rule => !isSkipperName rule.name).map fun rule => .expr rule.toExpr

theorem leading_insert (grammar : Grammar) (rule : Rule) :
    (grammar.insert rule).leading =
      if grammar.leading.isNone && !isSkipperName rule.name then some (.expr rule.toExpr)
      else grammar.leading := by
  simp only [leading, insert, List.find?_append]
  rcases Option.eq_none_or_eq_some (grammar.rules.find? fun rule => !isSkipperName rule.name) with
    found | ⟨first, found⟩
  · cases skips : isSkipperName rule.name <;> simp [found, skips]
  · simp [found]

theorem start_insert (started : grammar.start = grammar.leading) :
    (grammar.insert rule).start = (grammar.insert rule).leading := by
  rw [leading_insert, ← started]
  rfl

theorem mem_of_get {name : String} (found : grammar.get name = .ok rule) :
    rule ∈ grammar.rules := by
  unfold get at found
  split at found
  next other there =>
    cases found
    exact List.mem_of_find?_eq_some there
  · cases found

theorem not_mem_ruleNames (absent : grammar.contains rule.name = false) :
    rule.name ∉ grammar.ruleNames := by
  intro member
  obtain ⟨other, among, same⟩ := List.mem_map.mp member
  have missing : grammar.find? rule.name = none := by simpa [contains] using absent
  exact List.find?_eq_none.mp missing other among (by simpa using same)

theorem ruleNames_nodup_insert (distinct : grammar.ruleNames.Nodup)
    (absent : grammar.contains rule.name = false) : (grammar.insert rule).ruleNames.Nodup := by
  have names : (grammar.insert rule).ruleNames = grammar.ruleNames ++ [rule.name] := by
    simp [ruleNames, insert]
  rw [names]
  exact List.nodup_append.mpr ⟨distinct, List.nodup_singleton _, fun name member other last same =>
    not_mem_ruleNames absent (List.mem_singleton.mp last ▸ same ▸ member)⟩

/-- With distinct names, the table holds exactly its rules under their names. -/
theorem find?_name_eq_some (distinct : grammar.ruleNames.Nodup) :
    grammar.find? rule.name = some rule ↔ rule ∈ grammar.rules := by
  constructor
  · exact List.mem_of_find?_eq_some
  · intro member
    cases found : grammar.find? rule.name with
    | none => exact absurd (List.find?_eq_none.mp found rule member) (by simp)
    | some other =>
      have same : other.name = rule.name := by simpa using List.find?_some found
      exact congrArg some
        (List.inj_on_of_nodup_map distinct (List.mem_of_find?_eq_some found) member same)

end Grammar

/-! ### Ownership -/

namespace Catalogue

variable {heap : Nat → Rule} {catalogue after : Catalogue} {number : Nat}

/-- The rules in the tables are those of the heap, each belongs to the grammar whose table it is
in, and no table has two rules of one name. -/
structure Owned (heap : Nat → Rule) (catalogue : Catalogue) : Prop where
  identified : ∀ number, ∀ rule ∈ (catalogue.grammar number).rules, heap rule.tag = rule
  owner : ∀ rule, heap rule.tag = rule → ∀ number,
    catalogue.owner? rule = some number ↔ rule ∈ (catalogue.grammar number).rules
  distinct : ∀ number, (catalogue.grammar number).ruleNames.Nodup

namespace Owned

theorem empty (heap : Nat → Rule) : Owned heap {} where
  identified number rule member := by simp [grammar] at member
  owner rule _ number := by simp [owner?, grammar]
  distinct number := by simp [grammar, Grammar.ruleNames]

/-- Only the tables and the owners matter. -/
theorem of_same (owned : Owned heap catalogue)
    (tables : ∀ number, (after.grammar number).rules = (catalogue.grammar number).rules)
    (owners : after.owners = catalogue.owners) : Owned heap after where
  identified number := by rw [tables]; exact owned.identified number
  owner rule known number := by
    rw [tables, owner?, owners]
    exact owned.owner rule known number
  distinct number := by rw [Grammar.ruleNames, tables]; exact owned.distinct number

theorem insertRule {rule : Rule} (owned : Owned heap catalogue)
    (known : number < catalogue.grammars.size) (admits : catalogue.Admits number rule)
    (named : heap rule.tag = rule) : Owned heap (catalogue.insertRule number rule) where
  identified other asked member := by
    rw [grammar_insertRule known] at member
    split at member
    · rcases List.mem_append.mp member with old | new
      · exact owned.identified number asked old
      · rwa [List.mem_singleton.mp new]
    · exact owned.identified other asked member
  owner asked identified other := by
    rw [owner?_insertRule, grammar_insertRule known]
    by_cases tagged : asked.tag = rule.tag
    · obtain rfl : asked = rule := by rw [← identified, tagged, named]
      simp only [if_true, Option.some.injEq]
      constructor
      · rintro rfl
        simp [Grammar.insert]
      · intro member
        split at member
        · next same => exact same.symm
        · exact (admits.free other ((owned.owner asked named other).mpr member)).symm
    · rw [if_neg tagged, owned.owner asked identified]
      have new : asked ≠ rule := fun same => tagged (same ▸ rfl)
      split
      · next same => subst same; simp [Grammar.insert, new]
      · rfl
  distinct other := by
    rw [grammar_insertRule known]
    split
    · exact Grammar.ruleNames_nodup_insert (owned.distinct number) admits.absent
    · exact owned.distinct other

end Owned

end Catalogue

/-! ### What is done to a catalogue -/

/-- What may be done to a catalogue. -/
inductive Operation where
  /-- A grammar of some rules is begun and, if it can be, completed. -/
  | build (name : String) (repeatLimit : Option Int) (rules : List Operand) (start : Start)
  /-- An operand is added to a grammar. -/
  | add (number : Nat) (operand : Operand)
  /-- A rule is made, which has a tag of its own, and added to a grammar. -/
  | create (number tag : Nat) (name : String) (kind : Datum) (body : Operand)

/-- How an operation ends. -/
inductive Effect where
  /-- The grammar of this number is complete. -/
  | built (number : Nat)
  /-- The rule is added. -/
  | added (rule : Rule)
  /-- The catalogue refuses. -/
  | refused (error : GrammarError)
  /-- There is no such rule. -/
  | malformed (error : BuildError)

/-- Whether an operation ended in an error. -/
def Effect.fails : Effect → Bool
  | built _ | added _ => false
  | refused _ | malformed _ => true

namespace Operation

/-- Adds an operand to a grammar. A refusal changes nothing. -/
def attempt (catalogue : Catalogue) (number : Nat) (operand : Operand) : Effect × Catalogue :=
  match catalogue.add number operand with
  | .ok (rule, catalogue) => (.added rule, catalogue)
  | .error error => (.refused error, catalogue)

/-- Does an operation. -/
def perform (catalogue : Catalogue) : Operation → Effect × Catalogue
  | build name repeatLimit rules start =>
    match catalogue.build name repeatLimit rules start with
    | (.ok number, catalogue) => (.built number, catalogue)
    | (.error error, catalogue) => (.refused error, catalogue)
  | add number operand => attempt catalogue number operand
  | create number tag name kind body =>
    match Expr.ofRule tag name kind body with
    | .ok rule => attempt catalogue number (.expr rule.toExpr)
    | .error error => (.malformed error, catalogue)

/-- The number of the grammar that an operation adds to. -/
def target (catalogue : Catalogue) : Operation → Nat
  | build .. => catalogue.grammars.size
  | add number _ | create number .. => number

/-- The operands that an operation adds, unless it stops before. -/
def operands : Operation → List Operand
  | build _ _ rules _ => rules
  | add _ operand => [operand]
  | create _ tag name kind body =>
    match Expr.ofRule tag name kind body with
    | .ok rule => [.expr rule.toExpr]
    | .error _ => []

/-- The catalogue at the time when the additions of an operation begin. -/
def opening (catalogue : Catalogue) : Operation → Catalogue
  | build name repeatLimit _ _ => catalogue.begun { name, repeatLimit }
  | _ => catalogue

/-- The rules that an operation adds. -/
def added (catalogue : Catalogue) (operation : Operation) : List Rule :=
  (operation.opening catalogue).added (operation.target catalogue) operation.operands

/-- The start that an operation asks for, if it begins a grammar. -/
def starts : Operation → List Start
  | build _ _ _ start => [start]
  | _ => []

/-- The operation adds to a grammar that there is, and all its rules are those of the heap. -/
structure Possible (heap : Nat → Rule) (catalogue : Catalogue) (operation : Operation) : Prop where
  known : operation.target catalogue < (operation.opening catalogue).grammars.size
  named : ∀ operand ∈ operation.operands, ∀ rule, operand.rule? = some rule → heap rule.tag = rule

end Operation

/-! ### What one operation does -/

namespace Operation

variable {heap : Nat → Rule} {catalogue after : Catalogue} {operation : Operation}

/-- The catalogue when the additions of an operation are made. -/
def supplied (catalogue : Catalogue) (operation : Operation) : Catalogue :=
  ((operation.opening catalogue).addAll (operation.target catalogue) operation.operands).2

theorem attempt_snd (catalogue : Catalogue) (number : Nat) (operand : Operand) :
    (attempt catalogue number operand).2 = (catalogue.addAll number [operand]).2 := by
  cases done : catalogue.add number operand <;> simp [attempt, Catalogue.addAll, done]

/-- After its additions, an operation does nothing but choose a start that is asked for: what was
given for it, or the rule in the table that was named. -/
theorem perform_snd (catalogue : Catalogue) (operation : Operation) :
    (operation.perform catalogue).2 = operation.supplied catalogue ∨
      ∃ asked start, asked ≠ .default ∧ operation.starts = [asked] ∧
        (operation.perform catalogue).2 =
          (operation.supplied catalogue).restart (operation.target catalogue) (some start) ∧
        (asked = .given start ∨
          ∃ rule ∈ ((operation.supplied catalogue).grammar (operation.target catalogue)).rules,
            start = .expr rule.toExpr) := by
  cases operation with
  | add number operand => exact .inl (attempt_snd catalogue number operand)
  | create number tag name kind body =>
    left
    cases made : Expr.ofRule tag name kind body with
    | error error => simp [perform, supplied, opening, operands, made, Catalogue.addAll]
    | ok rule => simp [perform, supplied, opening, operands, target, made, attempt_snd]
  | build name repeatLimit rules start =>
    have opened : (build name repeatLimit rules start).supplied catalogue =
      ((catalogue.begun { name, repeatLimit }).addAll catalogue.grammars.size rules).2 := rfl
    rw [opened]
    simp only [perform, Catalogue.build, target, starts]
    rw [show { catalogue with grammars := catalogue.grammars.push { name, repeatLimit } } =
      catalogue.begun { name, repeatLimit } from rfl]
    rcases (catalogue.begun { name, repeatLimit }).addAll catalogue.grammars.size rules with
      ⟨_ | ⟨⟩, supplied⟩
    · exact .inl rfl
    · cases start with
      | default => exact .inl rfl
      | given operand =>
        exact .inr ⟨.given operand, operand, by rintro ⟨⟩, rfl, rfl, .inl rfl⟩
      | named asked =>
        cases found : (supplied.grammar catalogue.grammars.size).get asked with
        | error error =>
          left
          simp [Catalogue.chooseStart, found, bind, Except.bind]
        | ok rule =>
          refine .inr ⟨.named asked, .expr rule.toExpr, by rintro ⟨⟩, rfl, ?_,
            .inr ⟨rule, Grammar.mem_of_get found, rfl⟩⟩
          simp [Catalogue.chooseStart, Catalogue.restart, found, bind, Except.bind, pure,
            Except.pure]

/-- An operation that fails, and begins no grammar, changes nothing. -/
theorem perform_of_fails (catalogue : Catalogue) (operation : Operation)
    (adds : operation.starts = []) (fails : (operation.perform catalogue).1.fails = true) :
    (operation.perform catalogue).2 = catalogue := by
  have refused (number : Nat) (operand : Operand)
      (fails : (attempt catalogue number operand).1.fails = true) :
      (attempt catalogue number operand).2 = catalogue := by
    cases done : catalogue.add number operand with
    | error => simp [attempt, done]
    | ok => simp [attempt, done, Effect.fails] at fails
  cases operation with
  | build => cases adds
  | add number operand => exact refused number operand fails
  | create number tag name kind body =>
    cases made : Expr.ofRule tag name kind body with
    | error => simp [perform, made]
    | ok rule =>
      simp only [perform, made] at fails ⊢
      exact refused number _ fails

end Operation

/-! ### Histories -/

/-- A catalogue, and beside it what happened to it. -/
structure Chronicle where
  /-- The catalogue. -/
  catalogue : Catalogue := {}
  /-- The number of the grammar and the rule of each addition, in their order. -/
  additions : List (Nat × Rule) := []
  /-- The start that each grammar was asked for, by its number. -/
  starts : List Start := []

namespace Chronicle

variable {heap : Nat → Rule} {chronicle : Chronicle} {operation : Operation}

/-- The rules that were added to a grammar, in their order. -/
def additionsTo (chronicle : Chronicle) (number : Nat) : List Rule :=
  (chronicle.additions.filter fun addition => addition.1 == number).map Prod.snd

/-- Does one more operation. -/
def note (chronicle : Chronicle) (operation : Operation) : Chronicle where
  catalogue := (operation.perform chronicle.catalogue).2
  additions := chronicle.additions ++
    (operation.added chronicle.catalogue).map (operation.target chronicle.catalogue, ·)
  starts := chronicle.starts ++ operation.starts

/-- What a series of operations makes of nothing. -/
def of (history : List Operation) : Chronicle := history.foldl note {}

/-- Each operation of a series is possible when it is its turn. -/
def Possible (heap : Nat → Rule) : Chronicle → List Operation → Prop
  | _, [] => True
  | chronicle, operation :: rest =>
    operation.Possible heap chronicle.catalogue ∧ Possible heap (chronicle.note operation) rest

/-- The catalogue is in order and agrees with what is noted beside it. -/
structure Kept (heap : Nat → Rule) (chronicle : Chronicle) : Prop where
  owned : chronicle.catalogue.Owned heap
  counted : chronicle.starts.length = chronicle.catalogue.grammars.size
  tables : ∀ number,
    (chronicle.catalogue.grammar number).rules = chronicle.additionsTo number
  started : ∀ number, chronicle.starts[number]? = some .default →
    (chronicle.catalogue.grammar number).start = (chronicle.catalogue.grammar number).leading

theorem additionsTo_note (chronicle : Chronicle) (operation : Operation) (number : Nat) :
    (chronicle.note operation).additionsTo number = chronicle.additionsTo number ++
      if number = operation.target chronicle.catalogue then operation.added chronicle.catalogue
      else [] := by
  simp only [additionsTo, note, List.filter_append, List.map_append, List.filter_map,
    List.append_cancel_left_eq]
  split
  · next same => subst same; simp [Function.comp_def]
  · next other => simp [Function.comp_def, Ne.symm other]

theorem Kept.empty (heap : Nat → Rule) : Kept heap {} where
  owned := .empty heap
  counted := rfl
  tables number := by simp [Catalogue.grammar, additionsTo]
  started number := by simp

/-- Beginning a grammar adds no rule to any table. -/
theorem Kept.opened (kept : Kept heap chronicle) (operation : Operation) (number : Nat) :
    ((operation.opening chronicle.catalogue).grammar number).rules =
      chronicle.additionsTo number := by
  rw [← kept.tables number]
  cases operation with
  | add | create => rfl
  | build name repeatLimit rules start =>
    rw [Operation.opening, Catalogue.grammar_begun]
    split
    · next fresh => rw [Catalogue.grammar_of_size_le (Nat.le_of_eq fresh.symm)]
    · rfl

theorem Kept.supplied_owned (kept : Kept heap chronicle)
    (possible : operation.Possible heap chronicle.catalogue) :
    (operation.supplied chronicle.catalogue).Owned heap := by
  have begun : (operation.opening chronicle.catalogue).Owned heap :=
    kept.owned.of_same
      (fun number => (kept.opened operation number).trans (kept.tables number).symm)
      (by cases operation <;> rfl)
  refine (Catalogue.adds_addAll _ _ _).preserves (Catalogue.Owned heap) possible.known ?_ begun
  intro catalogue rule member known admits owned
  obtain ⟨operand, among, found⟩ := Catalogue.rule?_of_mem_added member
  exact owned.insertRule known admits (possible.named operand among rule found)

theorem Kept.supplied_tables (kept : Kept heap chronicle)
    (possible : operation.Possible heap chronicle.catalogue) (number : Nat) :
    ((operation.supplied chronicle.catalogue).grammar number).rules =
      (chronicle.note operation).additionsTo number := by
  rw [additionsTo_note, ← kept.opened operation number]
  exact (Catalogue.adds_addAll _ _ _).tables possible.known number

/-- A grammar asked for without a start has its default one also in the middle of an operation. -/
theorem Kept.supplied_started (kept : Kept heap chronicle)
    (possible : operation.Possible heap chronicle.catalogue) (number : Nat)
    (default : (chronicle.note operation).starts[number]? = some .default) :
    ((operation.supplied chronicle.catalogue).grammar number).start =
      ((operation.supplied chronicle.catalogue).grammar number).leading := by
  have begun : ((operation.opening chronicle.catalogue).grammar number).start =
      ((operation.opening chronicle.catalogue).grammar number).leading := by
    cases operation with
    | add | create => exact kept.started number (by simpa [note, Operation.starts] using default)
    | build name repeatLimit rules start =>
      rw [Operation.opening, Catalogue.grammar_begun]
      split
      · rfl
      · next old =>
        refine kept.started number ?_
        rw [← kept.counted] at old
        rcases Nat.lt_or_gt_of_ne old with before | beyond
        · rwa [note, List.getElem?_append_left before] at default
        · rw [note, List.getElem?_append_right (Nat.le_of_lt beyond),
            List.getElem?_eq_none (by simp [Operation.starts]; omega)] at default
          cases default
  refine (Catalogue.adds_addAll _ _ _).preserves
    (fun catalogue => (catalogue.grammar number).start = (catalogue.grammar number).leading)
    possible.known ?_ begun
  intro catalogue rule _ known _ started
  rw [Catalogue.grammar_insertRule known]
  split
  · next same => exact Grammar.start_insert (same ▸ started)
  · exact started

theorem Kept.supplied_counted (kept : Kept heap chronicle) (operation : Operation) :
    (chronicle.note operation).starts.length =
      (operation.supplied chronicle.catalogue).grammars.size := by
  have size : (operation.supplied chronicle.catalogue).grammars.size =
    (operation.opening chronicle.catalogue).grammars.size := (Catalogue.adds_addAll _ _ _).size
  rw [size, note, List.length_append, kept.counted]
  cases operation with
  | add | create => rfl
  | build name repeatLimit rules start => exact (Catalogue.size_begun _).symm

/-- What an operation does keeps the catalogue in order. -/
theorem Kept.note (kept : Kept heap chronicle)
    (possible : operation.Possible heap chronicle.catalogue) :
    Kept heap (chronicle.note operation) := by
  have known : operation.target chronicle.catalogue <
      (operation.supplied chronicle.catalogue).grammars.size :=
    (Catalogue.adds_addAll _ _ _).size.symm ▸ possible.known
  rcases operation.perform_snd chronicle.catalogue with
    same | ⟨asked, start, given, only, restarted, _⟩
  · exact {
      owned := by rw [Chronicle.note, same]; exact kept.supplied_owned possible
      counted := by rw [kept.supplied_counted operation, Chronicle.note, same]
      tables := fun number => by
        rw [← kept.supplied_tables possible number, Chronicle.note, same]
      started := fun number default => by
        have started := kept.supplied_started possible number default
        rwa [Chronicle.note, same] }
  · have tables (number : Nat) :
        ((chronicle.note operation).catalogue.grammar number).rules =
          ((operation.supplied chronicle.catalogue).grammar number).rules := by
      rw [Chronicle.note, restarted, Catalogue.rules_restart known]
    exact {
      owned := (kept.supplied_owned possible).of_same tables
        (by rw [Chronicle.note, restarted]; rfl)
      counted := by
        rw [kept.supplied_counted operation, Chronicle.note, restarted]
        exact (Catalogue.size_put _ _).symm
      tables := fun number => (tables number).trans (kept.supplied_tables possible number)
      started := fun number default => by
        have other : number ≠ operation.target chronicle.catalogue := by
          rintro rfl
          cases operation with
          | add | create => cases only
          | build name repeatLimit rules start =>
            obtain rfl : start = asked := List.singleton_inj.mp only
            refine given ?_
            simpa [Chronicle.note, Operation.target, Operation.starts, ← kept.counted] using default
        have started := kept.supplied_started possible number default
        rwa [Chronicle.note, restarted, Catalogue.grammar_restart_of_ne known _ other] }

/-- What a series of operations does keeps the catalogue in order. -/
theorem Kept.run (history : List Operation) (kept : Kept heap chronicle)
    (possible : Possible heap chronicle history) :
    Kept heap (history.foldl Chronicle.note chronicle) := by
  induction history generalizing chronicle with
  | nil => exact kept
  | cons operation rest ih => exact ih (kept.note possible.1) possible.2

/-- What is said of the rules and grammars of a catalogue, given what happened to it. -/
structure Consistent (heap : Nat → Rule) (chronicle : Chronicle) : Prop where
  /-- A rule belongs to the grammar that holds it under its name. -/
  owner : ∀ rule, heap rule.tag = rule → ∀ number,
    chronicle.catalogue.owner? rule = some number ↔
      (chronicle.catalogue.grammar number).find? rule.name = some rule
  /-- No rule is in the tables of two grammars. -/
  apart : ∀ rule first second, rule ∈ (chronicle.catalogue.grammar first).rules →
    rule ∈ (chronicle.catalogue.grammar second).rules → first = second
  /-- A table has the rules that were added, by their names, in the order of addition. -/
  table : ∀ number, (chronicle.catalogue.grammar number).table =
    (chronicle.additionsTo number).map fun rule => (rule.name, rule.toExpr)
  /-- No name is in a table twice. -/
  names : ∀ number, ((chronicle.catalogue.grammar number).table.map Prod.fst).Nodup
  /-- Unless another one was asked for, the start is the first rule that does not say what is
  ignored. -/
  start : ∀ number, chronicle.starts[number]? = some .default →
    (chronicle.catalogue.grammar number).start = (chronicle.catalogue.grammar number).leading
  /-- An addition that fails changes nothing. -/
  failure : ∀ operation : Operation, operation.starts = [] →
    (operation.perform chronicle.catalogue).1.fails = true →
      (operation.perform chronicle.catalogue).2 = chronicle.catalogue

end Chronicle

/-- After any series of grammars built, completed or not, and of rules added, taken or refused,
rules and grammars agree on what belongs to what. -/
theorem ownership_consistent (heap : Nat → Rule) (history : List Operation)
    (possible : Chronicle.Possible heap {} history) :
    (Chronicle.of history).Consistent heap := by
  have kept : (Chronicle.of history).Kept heap := Chronicle.Kept.run history (.empty heap) possible
  exact {
    owner := fun rule known number =>
      (kept.owned.owner rule known number).trans
        (Grammar.find?_name_eq_some (kept.owned.distinct number)).symm
    apart := fun rule first second inFirst inSecond => by
      have known := kept.owned.identified first rule inFirst
      have owner := (kept.owned.owner rule known first).mpr inFirst
      rw [(kept.owned.owner rule known second).mpr inSecond] at owner
      exact (Option.some.inj owner).symm
    table := fun number => by rw [Grammar.table, kept.tables]
    names := fun number => by
      rw [Grammar.table, List.map_map]
      exact kept.owned.distinct number
    start := kept.started
    failure := fun operation => operation.perform_of_fails _ }

/-- A grammar takes a rule. A second one asks for the same rule after another, which it keeps when
it is given up. A rule that is made for the first one is of no known kind. -/
theorem ownership_consistent_of_abandoned :
    let mine : Rule := ⟨0, "mine", .normal, .literal "a"⟩
    let blank : Rule := ⟨1, "WHITESPACE", .silent, .literal " "⟩
    let heap (tag : Nat) : Rule := if tag = 0 then mine else blank
    let history : List Operation := [.build "first" none [.expr mine.toExpr] .default,
      .build "second" none [.expr blank.toExpr, .expr mine.toExpr] .default,
      .create 0 2 "more" (.text "loud") (.datum (.text "b"))]
    Chronicle.Possible heap {} history ∧ (Chronicle.of history).Consistent heap := by
  intro mine blank heap history
  have possible : Chronicle.Possible heap {} history := by
    refine ⟨⟨by decide, ?_⟩, ⟨by decide, ?_⟩, ⟨by decide, nofun⟩, trivial⟩
    · rintro _ (_ | ⟨_, ⟨⟩⟩) _ ⟨⟩; rfl
    · rintro _ (_ | ⟨_, _ | ⟨_, ⟨⟩⟩⟩) _ ⟨⟩ <;> rfl
  exact ⟨possible, ownership_consistent heap history possible⟩

end Peg
