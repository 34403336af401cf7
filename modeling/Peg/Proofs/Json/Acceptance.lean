import Peg.Proofs.Json.Values
import Peg.Proofs.Parse.Independence
import Peg.Proofs.Scan.Parsing

/-!
# The grammar of JSON texts

The grammar accepts a text if and only if that is a JSON text that keeps to the limit of
repetitions, if there is one. A value is recognized with the blanks before it, and what is left of
the text after it has to be ignored.

## Main result

A call of the grammar with a text and a limit tells whether the text is a JSON text within the
limit.
-/
namespace Peg.Json

open Scan Scan.Recognizes Syntax
open Intake (must_append)

/-- A JSON text that keeps to a limit. -/
def IsDocument (limit : Option Nat) (text : List Char) : Prop :=
  ∃ document : Document, (∀ most, limit = some most → document.Within most) ∧
    document.chars = text

/-- The first element of an array does not count, and neither do blanks. -/
example : IsDocument (some 1) "[1,  2]".toList := by
  let no : Blanks := ⟨[], by simp⟩
  let one : Number := ⟨false, .leading '1' (by decide) ⟨[], by simp⟩, none, none⟩
  let two : Number := ⟨false, .leading '2' (by decide) ⟨[], by simp⟩, none, none⟩
  refine ⟨.mk no (.array (.mk no (.number one) no)
    [.mk ⟨[' ', ' '], by simp [isBlank]⟩ (.number two) no]) no, ?_, rfl⟩
  rintro _ ⟨⟩
  simp [Element.Within, Value.Within, Element.AllWithin, Number.Within, Whole.Within, one, two]

/-- The answer of a call says whether the text is accepted. -/
def Decides (accepted : Prop) : Except CallError Match → Prop
  | .ok _ => accepted
  | .error (.rejected _) => ¬accepted
  | .error _ => False

instance {accepted : Prop} [Decidable accepted] :
    (answer : Except CallError Match) → Decidable (Decides accepted answer)
  | .ok _ => inferInstanceAs (Decidable accepted)
  | .error (.rejected _) => inferInstanceAs (Decidable (¬accepted))
  | .error (.lacks ..) | .error (.fault _) | .error .exhausted => inferInstanceAs (Decidable False)

section Rules

variable {env : Env} (rules : env.rules = grammar.table)
  (ignored : env.skippers = [.rule 13 "WHITESPACE" .silent whiteSpace])

include rules ignored

/-- A value is recognized with the blanks before it. -/
theorem document_recognized : ∃ outcome,
    (Scan.expr env false (.rule 0 "document" .normal document)).Takes env
      env.input.chars.toList outcome ∧
    ((Intake.of (fun text => ∀ c ∈ text, isBlank c = true) (Spares isBlank)).followedBy
      (.of (IsValue env.repeatLimit) (Spares isNumeric))).Suits env.input.chars.toList outcome := by
  have values := value_recognizes rules ignored (env.input.chars.toList.length + 1)
  have after : Recognizes env _ (items env false [.ref "value"]) _ :=
    items_last (blanks_recognizes ignored _) values
  obtain ⟨outcome, takes, suits⟩ := after env.input.chars.toList (Nat.lt_succ_self _)
  have start : (Scan.expr env false (.terminal .startOfInput)).Takes env
      ([] ++ env.input.chars.toList) (some []) := start_takes false
  have whole : (Scan.expr env false document).Takes env ([] ++ env.input.chars.toList)
      (outcome.map ([] ++ ·)) := (start.branch_found takes).unfold seq_unfolds
  have unchanged : outcome.map ([] ++ ·) = outcome := by simp
  rw [unchanged] at whole
  exact ⟨outcome, whole.rule, suits⟩

/-- Of a JSON text all is taken but the blanks at its end, and of other texts less, or nothing. -/
theorem document_takes : ∃ outcome,
    (Scan.expr env false (.rule 0 "document" .normal document)).Takes env
      env.input.chars.toList outcome ∧
    ((∃ text rest, outcome = some text ∧ (∀ c ∈ rest, isBlank c = true) ∧
      env.input.chars.toList = text ++ rest) ↔
        IsDocument env.repeatLimit env.input.chars.toList) := by
  obtain ⟨outcome, takes, suits⟩ := document_recognized rules ignored
  refine ⟨outcome, takes, ?_⟩
  rw [IsDocument, ← padded_isValue_iff]
  constructor
  · rintro ⟨text, rest, rfl, blank, split⟩
    obtain ⟨⟨before, value, front, isValue, rfl⟩, _⟩ := suits.may text rfl
    exact ⟨before, value, rest, front, isValue, blank, by rw [split, List.append_assoc]⟩
  · rintro ⟨before, value, after, front, isValue, back, split⟩
    -- Blanks do not go on with a number, so that the value has come to its end.
    have ended := blanks_not_numeric back
    have due : before ++ value ++ after = env.input.chars.toList := by
      rw [List.append_assoc, split]
    have starts : Spares isBlank (value ++ after) :=
      item_spares (values_delimited env.repeatLimit) isValue after
    have taken := suits.must _ _ (must_append ⟨front, starts⟩ ⟨isValue, ended⟩) due.symm
    exact ⟨before ++ value, after, taken, back, due.symm⟩

theorem parse_decides (forced : List LazyCell) : ∃ enough, ∀ fuel, enough ≤ fuel →
    Decides (IsDocument env.repeatLimit env.input.chars.toList)
      (Reply.ofAction (parse env fuel (.rule 0 "document" .normal document)) forced).answer := by
  obtain ⟨outcome, takes, accepted⟩ := document_takes rules ignored
  have loose : ¬LeadsToAtomic env (.rule 0 "document" .normal document) := by
    rintro ⟨⟨⟩⟩
  obtain ⟨enough, parsed, ended, succeeds⟩ :=
    parse_succeeds_iff ignored (fun input => (blank_takesOne input).rule) loose takes forced
  refine ⟨enough, fun fuel le => ?_⟩
  obtain ⟨after, done⟩ := ended fuel le
  rw [Reply.ofAction, done]
  rw [accepted] at succeeds
  cases parsed with
  | ok found => exact succeeds.mp ⟨found, rfl⟩
  | error report =>
    intro isDocument
    obtain ⟨found, impossible⟩ := succeeds.mpr isDocument
    cases impossible

end Rules

/-! ### Calls -/

section Calls

variable (text : String) (limit : Option Nat) (tracing : Bool) (definitions : Definitions)

/-- The environment in which a call that gives a limit parses a text. -/
def textEnv : Env where
  input := .ofString 0 text
  rules := grammar.table
  definitions := definitions
  whitespace := some (.rule 13 "WHITESPACE" .silent whiteSpace)
  comment := none
  repeatLimit := limit
  tracing := tracing

theorem parse_eq (forced : List LazyCell) (fuel : Nat) : grammar.parse definitions forced .default
    { text := .text text, settings := { repeatLimit := some (limit.map Int.ofNat), tracing } }
      fuel =
    .ok (grammar.noteFailure (.expr (.rule 0 "document" .normal document)) tracing
      (.ofAction (parse (textEnv text limit tracing definitions) fuel
        (.rule 0 "document" .normal document)) forced)) := by
  cases limit <;> rfl

/-- The grammar accepts exactly the JSON texts in which no row is longer than the limit allows.
Given enough fuel, the call with a text and any limit, or with none, says whether it is one. -/
theorem grammar_accepts_json_texts (forced : List LazyCell) :
    let settings : Settings := { repeatLimit := some (limit.map Int.ofNat), tracing }
    ∃ enough, ∀ fuel, enough ≤ fuel → ∃ reply,
      grammar.parse definitions forced .default { text := .text text, settings } fuel = .ok reply ∧
        Decides (IsDocument limit text.toList) reply.answer := by
  intro settings
  have rules : (textEnv text limit tracing definitions).rules = grammar.table := rfl
  obtain ⟨enough, decides⟩ := parse_decides rules rfl forced
  refine ⟨enough, fun fuel le => ⟨_, parse_eq text limit tracing definitions forced fuel, ?_⟩⟩
  rw [Grammar.noteFailure_answer_of_named _ rfl]
  exact decides fuel le

/-- Behind the first element of an array no more stand here than the limit allows. -/
example : ∃ reply, grammar.parse [] [] .default
    { text := .text "[1,  2]", settings := { repeatLimit := some (some 1) } } 300 = .ok reply ∧
      Decides True reply.answer :=
  ⟨_, rfl, by decide +kernel⟩

/-- A comma has to be followed by an element. -/
example : ∃ reply, grammar.parse [] [] .default { text := .text "[1,]" } 300 = .ok reply ∧
    Decides False reply.answer :=
  ⟨_, rfl, by decide +kernel⟩

end Calls

end Peg.Json
