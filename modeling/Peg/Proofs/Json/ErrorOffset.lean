import Peg.Proofs.Json.Acceptance
import Peg.Proofs.Json.Extents
import Peg.Proofs.Scan.Reports

/-!
# Where a text is no JSON text

Without a limit of repetitions, the failure that is reported for a text that is no JSON text stands
behind the longest front of the text that can be extended to a JSON text: what comes before it is no
mistake yet, and no JSON text goes on with the character at it.

## Main result

The offset of the report is the length of that front.
-/
namespace Peg.Json

open Scan Syntax
open Intake (must_append)

section Rules

variable {env : Env} (unlimited : env.repeatLimit = none) (rules : env.rules = grammar.table)
  (ignored : env.skippers = [.rule 13 "WHITESPACE" .silent whiteSpace])

/-- The blanks after a value are split off, as no number goes on with them. -/
theorem document_leads (limit : Option Nat) :
    ((ignoring isBlank).followedBy (.of (IsValue limit) (Spares isNumeric))).Leads
      (fun text => ∀ c ∈ text, isBlank c = true) (IsDocument limit) := by
  have document : ∀ text, IsDocument limit text ↔ Padded isBlank (IsValue limit) text :=
    fun text => (padded_isValue_iff limit text).symm
  refine ⟨⟨[], nofun⟩, ?_, ?_⟩
  · rintro _ after ⟨before, value, front, isValue, rfl⟩ back
    exact (document _).mpr ⟨before, value, after, front, isValue, back, (List.append_assoc ..).symm⟩
  · intro text isDocument _
    obtain ⟨before, value, after, front, isValue, back, rfl⟩ := (document text).mp isDocument
    refine ⟨before ++ value, after, ⟨before, value, front, isValue, rfl⟩, back,
      List.append_assoc .., ?_⟩
    rintro c tail rfl rest
    exact must_append ⟨front, item_spares (values_delimited limit) isValue (c :: rest)⟩
      ⟨isValue, .cons (blank_not_numeric (back c List.mem_cons_self)) rest⟩

include unlimited rules ignored

theorem document_attains : ∃ reach,
    (Scan.expr env false (.rule 0 "document" .normal document)).Attains env
      env.input.chars.toList reach ∧
    Extent (Joined (ignoring isBlank).may (IsValue env.repeatLimit)) env.input.chars.toList
      reach := by
  have values := value_recognizes rules ignored (env.input.chars.toList.length + 1)
  have after : Explores env _ (items env false [.ref "value"]) _ :=
    .items_last (blanks_recognizes ignored _) (blanks_explores ignored _) values
      (value_explores unlimited rules ignored _)
      (gap_leads_item (values_delimited env.repeatLimit) (exists_isValue env.repeatLimit))
  obtain ⟨reach, attains, extent⟩ := after env.input.chars.toList (Nat.lt_succ_self _)
  -- The start of the text is found where the parse begins, which makes no difference.
  have start : (Scan.expr env false (.terminal .startOfInput)).Takes env
      ([] ++ env.input.chars.toList) (some []) := start_takes false
  have whole : (Scan.expr env false document).Attains env ([] ++ env.input.chars.toList)
      (max 0 (0 + reach)) :=
    (Attains.branch_found start (boundary_attains (.inl rfl) _) attains).unfold seq_opens
  rw [Nat.zero_add, Nat.zero_max] at whole
  exact ⟨reach, whole.rule, extent⟩

/-- A parse of a text gets as far as the text can go on as a JSON text. -/
theorem exists_document_extent : ∃ reach,
    Extent (IsDocument env.repeatLimit) env.input.chars.toList reach ∧ ∀ fuel,
      Action.Accounts env.input (parse env fuel (.rule 0 "document" .normal document))
        fun parsed gained => attained gained parsed.toOption = reach := by
  have loose : ¬LeadsToAtomic env (.rule 0 "document" .normal document) := by
    rintro ⟨⟨⟩⟩
  obtain ⟨outcome, takes, suits⟩ := document_recognized rules ignored
  obtain ⟨reach, attains, extent⟩ := document_attains unlimited rules ignored
  exact exists_parse_attains ignored (fun input => (blank_takesOne input).rule) loose takes suits
    attains extent (document_leads env.repeatLimit)

end Rules

/-- The offset that is reported for a text that is rejected. -/
def rejectionOffset? : Except CallError Match → Option Int
  | .error (.rejected report) => some report.offset
  | _ => none

theorem Decides.not_of_rejected {accepted : Prop} {answer : Except CallError Match} {offset : Int}
    (decides : Decides accepted answer) (rejected : rejectionOffset? answer = some offset) :
    ¬accepted := by
  cases answer with
  | ok found => cases rejected
  | error error =>
    cases error with
    | rejected report => exact decides
    | lacks | fault | exhausted => cases rejected

/-- A rejection does not depend on the fuel. -/
theorem rejectionOffset_of_le {env : Env} {root : Expr} {forced : List LazyCell} {offset : Int}
    {less more : Nat} (le : less ≤ more)
    (rejected : rejectionOffset? (Reply.ofAction (parse env less root) forced).answer =
      some offset) :
    rejectionOffset? (Reply.ofAction (parse env more root) forced).answer = some offset := by
  have ends : (Reply.ofAction (parse env less root) forced).answer ≠ .error .exhausted := by
    intro endless
    rw [endless] at rejected
    cases rejected
  rwa [answer_of_le le ends]

section Calls

variable (text : String) (tracing : Bool) (definitions : Definitions) (forced : List LazyCell)

/-- With enough fuel every text is rejected that is no JSON text, and where it goes wrong. -/
theorem parse_rejects_at (other : ¬IsDocument none text.toList) : ∃ offset,
    Extent (IsDocument none) text.toList offset ∧ ∃ enough, ∀ fuel, enough ≤ fuel →
      rejectionOffset? (Reply.ofAction (parse (textEnv text none tracing definitions) fuel
        (.rule 0 "document" .normal document)) forced).answer = some (offset : Int) := by
  have rules : (textEnv text none tracing definitions).rules = grammar.table := rfl
  obtain ⟨offset, extent, attains⟩ := exists_document_extent rfl rules rfl
  obtain ⟨enough, decides⟩ := parse_decides rules rfl forced
  refine ⟨offset, extent, enough, fun fuel le => ?_⟩
  have decided := decides fuel le
  rw [Reply.ofAction] at decided ⊢
  cases ended : parse (textEnv text none tracing definitions) fuel
      (.rule 0 "document" .normal document) { forced } with
  | done parsed after =>
    rw [ended] at decided
    cases parsed with
    | ok found => exact absurd decided other
    | error report => exact congrArg some (report_offset_of_attains (attains fuel) rfl ended)
  | fault cause after =>
    rw [ended] at decided
    exact decided.elim
  | exhausted =>
    rw [ended] at decided
    exact decided.elim

/-- The call rejects a text where the parse does. -/
theorem call_rejects_iff (fuel : Nat) (offset : Int) :
    (∃ reply, grammar.parse definitions forced .default
        { text := .text text, settings := { repeatLimit := some none, tracing } } fuel = .ok reply ∧
      rejectionOffset? reply.answer = some offset) ↔
    rejectionOffset? (Reply.ofAction (parse (textEnv text none tracing definitions) fuel
      (.rule 0 "document" .normal document)) forced).answer = some offset := by
  have called := parse_eq text none tracing definitions forced fuel
  rw [Option.map_none] at called
  rw [called]
  simp only [Except.ok.injEq, exists_eq_left', Grammar.noteFailure_answer_of_named _
    (show (Operand.expr (.rule 0 "document" .normal document)).name? = some "document" from rfl)]

/-- The grammar rejects a text that is no JSON text behind its longest front that can be extended to
one. Given enough fuel, the call with such a text reports the length of that front as the offset of
its failure, which is the length of the whole text if that is only incomplete. -/
theorem grammar_rejects_behind_longest_viable_front (other : ¬IsDocument none text.toList) :
    let settings : Settings := { repeatLimit := some none, tracing }
    ∃ offset,
      IsGreatest {n | n ≤ text.toList.length ∧ Viable (IsDocument none) (text.toList.take n)}
        offset ∧
      (Viable (IsDocument none) text.toList → offset = text.toList.length) ∧
      ∃ enough, ∀ fuel, enough ≤ fuel → ∃ reply,
        grammar.parse definitions forced .default { text := .text text, settings } fuel =
          .ok reply ∧
        rejectionOffset? reply.answer = some (offset : Int) := by
  intro settings
  obtain ⟨offset, extent, enough, rejects⟩ :=
    parse_rejects_at text tracing definitions forced other
  refine ⟨offset, extent.isGreatest, ?_, enough, fun fuel le => ?_⟩
  · intro incomplete
    have reached := (extent.iff text.toList.length (Nat.le_refl _)).mpr
      (by rwa [List.take_length])
    exact Nat.le_antisymm extent.le reached
  · exact (call_rejects_iff text tracing definitions forced fuel offset).mpr (rejects fuel le)

end Calls

/-- After an element and a comma another element may follow, but not the closing bracket. -/
theorem trailing_comma_goes_wrong_at_bracket : ¬IsDocument none "[1,]".toList ∧
    IsGreatest {n | n ≤ 4 ∧ Viable (IsDocument none) ("[1,]".toList.take n)} 3 ∧
    ∃ reply, grammar.parse [] [] .default
        { text := .text "[1,]", settings := { repeatLimit := some none } } = .ok reply ∧
      rejectionOffset? reply.answer = some 3 := by
  have answer : rejectionOffset? (Reply.ofAction (parse (textEnv "[1,]" none false []) 300
      (.rule 0 "document" .normal document)) []).answer = some 3 := by
    decide +kernel
  have other : ¬IsDocument none "[1,]".toList := by
    have rules : (textEnv "[1,]" none false []).rules = grammar.table := rfl
    obtain ⟨enough, decides⟩ := parse_decides rules rfl []
    exact (decides (max enough 300) (Nat.le_max_left _ _)).not_of_rejected
      (rejectionOffset_of_le (Nat.le_max_right enough 300) answer)
  obtain ⟨offset, greatest, _, enough, rejects⟩ :=
    grammar_rejects_behind_longest_viable_front "[1,]" false [] [] other
  -- The parse that was evaluated tells which offset it is.
  have rejected := (call_rejects_iff "[1,]" false [] [] (max enough 300) offset).mp
    (rejects (max enough 300) (Nat.le_max_left _ _))
  rw [rejectionOffset_of_le (Nat.le_max_right enough 300) answer] at rejected
  obtain rfl : 3 = offset := Int.ofNat.inj (Option.some.inj rejected)
  exact ⟨other, greatest, (call_rejects_iff "[1,]" false [] [] ampleFuel 3).mpr
    (rejectionOffset_of_le (by decide) answer)⟩

end Peg.Json
