import Peg.Proofs.Json.Loading
import Peg.Proofs.Machine.Readers
import Peg.Proofs.Parse.Limits

/-!
# Loading strings in time

The tree of a JSON text has the value of the text, given enough fuel. For a text that is a string,
what a call has is enough: how many moves the machine makes depends on the limit of repetitions
only. So it need not be said again what is matched, but only that the matching ends in time.

## Main result

A string in quotes that keeps to the limit is loaded as its code points.
-/
namespace Peg.Json

open Machine Syntax

section Moves

variable {env : Env} {stack : Stack Span} {limit : Nat}

/-! ### Strings -/

theorem hexDigit_takes : ∃ reader, Takes env 6 Expr.asciiHexDigit true stack reader :=
  ⟨_, .choice (.cons (.charRange '0' '9') (.cons (.charRange 'a' 'f')
    (.cons (.charRange 'A' 'F') .nil)))⟩

/-- Each of the three kinds of pieces is matched in a few moves, or missed. -/
theorem char_takes : ∃ reader, Takes env 126 char true stack reader := by
  have mark : Takes env 16 (.choice (.literal "\"") [.literal "\\", .literal "/", .literal "b",
      .literal "f", .literal "n", .literal "r", .literal "t"]) true stack _ :=
    .choice (.cons (.literal "\"") (.cons (.literal "\\") (.cons (.literal "/")
      (.cons (.literal "b") (.cons (.literal "f") (.cons (.literal "n") (.cons (.literal "r")
        (.cons (.literal "t") .nil))))))))
  have short : Takes env 20 (.seq (.literal "\\") [_]) true stack _ := .seq (.literal "\\") mark
  obtain ⟨reader, digit⟩ := @hexDigit_takes env stack
  have unit : Takes env 40 (.seq (.literal "\\u") [_, _, _, _]) true stack _ :=
    .row (.cons ((Takes.literal "\\u").mono (Nat.zero_le 6))
      (.cons digit (.cons digit (.cons digit (.cons digit .nil)))))
  have special : Takes env 6 (.choice (.literal "\"") [.literal "\\",
      Expr.charRange '\x00' '\x1f']) true stack.snapshot _ :=
    .choice (.cons (.literal "\"") (.cons (.literal "\\") (.cons (.charRange '\x00' '\x1f') .nil)))
  have plain : Takes env 12 (.seq (.negative _) [.terminal .any]) true stack _ :=
    .seq (special.negative rfl) .any
  exact ⟨_, .choice (.cons (short.mono (by decide)) (.cons unit
    (.cons (plain.mono (by decide)) .nil)))⟩

/-! ### Marks and blanks -/

/-- Where its opening mark is missing, a rule is missed. -/
theorem opening_misses {name mark : String} {tag : Nat} {inner : List Expr} {here : Position}
    (whole : here.input = env.input)
    (known : env.rules.lookup name = some (.rule tag name .normal (.seq (.literal mark) inner)))
    (other : ∀ tail, here.rest ≠ mark.toList ++ tail) :
    Fares env 5 (.ref name) here false stack fun result after => after = stack ∧ result = none := by
  have missed := Reader.literal_of_not_front other
  have fails : Fares env 2 (.seq (.literal mark) inner) here false stack
      fun result after => after = stack ∧ result = none := by
    refine Leads.callLast (Takes.literal mark here whole) fun result after took => ?_
    rw [missed] at took
    cases result with
    | none => exact .answer ⟨took.1, rfl⟩
    | some item => cases took.2
  refine .ref known (.rule fails (fun _ failed => failed) nofun fun _ found after failed => ?_)
  cases failed.2

theorem blank_takes : Takes env 10 (.rule 13 "WHITESPACE" .silent whiteSpace) true stack
    (.one fun c => decide (c ∈ [' ', '\t', '\r', '\n'])) := by
  have each : Takes env 8 whiteSpace true stack _ :=
    .choice (.cons (.literal " ") (.cons (.literal "\t") (.cons (.literal "\r")
      (.cons (.literal "\n") .nil))))
  rw [← Reader.first_literals]
  exact each.rule

/-- Where no blank follows, nothing is skipped. -/
theorem gap_stays (ignored : env.skippers = [.rule 13 "WHITESPACE" .silent whiteSpace])
    {here : Position} (whole : here.input = env.input)
    (solid : ∀ c tail, here.rest = c :: tail → c ∉ [' ', '\t', '\r', '\n']) :
    Fares env 24 .ignored here false stack
      fun result after => after = stack ∧ result = some ⟨here, none⟩ := by
  have missed : Reader.one (fun c => decide (c ∈ [' ', '\t', '\r', '\n'])) here.rest = none := by
    cases front : here.rest with
    | nil => rfl
    | cons c tail => simpa [Reader.one] using solid c tail front
  refine (ignored_stays ignored blank_takes (Reader.one_runs _) whole missed).mono (Nat.le_refl _)
    fun result after skipped => ?_
  obtain ⟨rfl, stop, rfl, reads⟩ := skipped
  rw [(Reader.one_runs _).stops missed] at reads
  rw [reads.unique (.refl here)]
  exact ⟨rfl, rfl⟩

/-- How many moves a string takes at most. -/
def stringCost (limit : Nat) : Nat := 3 * ((limit + 1) * 131 + 2) + 3

section Rules

variable (rules : env.rules = grammar.table) (limited : env.repeatLimit = some limit)

include rules limited

theorem string_takes :
    ∃ reader, Takes env (stringCost limit) (.ref "string") false stack reader := by
  obtain ⟨reader, piece⟩ := @char_takes env stack
  have chars : Takes env ((limit + 1) * 131) (many (.ref "char")) true stack _ :=
    (piece.rule.ref (defined rules rfl)).rep limited 0
  have quote : Takes env ((limit + 1) * 131) (.literal "\"") true stack _ :=
    (Takes.literal "\"").mono (Nat.zero_le _)
  have row : Takes env (3 * ((limit + 1) * 131 + 2)) string true stack _ :=
    .row (.cons quote (.cons chars (.cons quote .nil)))
  exact ⟨_, row.rule.ref (defined rules rfl)⟩

variable {quoted : Quoted} (within : quoted.Within limit) {here : Position} {rest : List Char}
  (whole : here.input = env.input) (front : here.rest = quoted.chars ++ rest)

include within whole front

/-- What a string takes is known already. -/
theorem string_fares : Fares env (stringCost limit) (.ref "string") here false stack
    (here.Took stack (some quoted.chars)) := by
  have short : ∀ most, env.repeatLimit = some most → quoted.Within most := by
    rintro _ same
    cases limited.symm.trans same
    exact within
  have scanned : (Scan.expr env false (.ref "string")).Takes env (quoted.chars ++ rest) _ :=
    Scan.Recognizes.takes (fun _ => string_recognizes rules) ⟨⟨quoted, short, rfl⟩, trivial⟩
  obtain ⟨reader, takes⟩ := @string_takes env stack limit rules limited
  rw [← front] at scanned
  rw [← takes.reader_eq whole scanned]
  exact takes here whole

/-! ### Values -/

theorem value_fares : Fares env (stringCost limit + 19) (.ref "value") here false stack
    (here.Took stack (some quoted.chars)) := by
  have quote (mark : Char) (other : mark ≠ '"') (tail : List Char) :
      here.rest ≠ [mark] ++ tail := by
    rw [front]
    exact fun same => other (List.cons.inj same).1.symm
  have cost_eq : stringCost limit + 19 = 5 + (5 + (stringCost limit + 2) + 2) + 2 + 2 + 1 := by
    omega
  rw [cost_eq]
  refine .ref (defined rules rfl) (.ruleTook ?_)
  -- Objects and arrays come before strings.
  refine Leads.alternative (opening_misses whole (defined rules rfl)
    (quote '\x7b' (by decide))) ?_ nofun
  rintro _ ⟨rfl, _⟩
  refine Leads.alternative (opening_misses whole (defined rules rfl)
    (quote '[' (by decide))) ?_ nofun
  rintro _ ⟨rfl, _⟩
  refine Leads.callLast (string_fares rules limited within whole front) fun result after took => ?_
  cases result with
  | none => cases took.2
  | some item =>
    obtain ⟨rfl, text, same, reads⟩ := took.of_some
    exact .conclude (.answer reads.precedes fun _ _ => .found same reads _)

/-- A document begins at the start, and a quote is no blank. -/
theorem document_fares (ignored : env.skippers = [.rule 13 "WHITESPACE" .silent whiteSpace])
    (first : here.atStart = true) :
    Fares env (stringCost limit + 51) (.rule 0 "document" .normal document) here false stack
      (here.Took stack (some quoted.chars)) := by
  have cost_eq : stringCost limit + 51 = 0 + (24 + (stringCost limit + 19 + 2) + 2) + 2 + 2 := by
    omega
  rw [cost_eq]
  refine .ruleTook ?_
  have starts : Fares env 0 (.terminal .startOfInput) here false stack
      fun result after => after = stack ∧ here.Leaf (some []) result := by
    refine .terminal ?_
    rw [Terminal.attempt, if_pos first]
    exact Terminal.found_gives .soi "" (.refl here)
  have solid (c : Char) (tail : List Char) (next : here.rest = c :: tail) :
      c ∉ [' ', '\t', '\r', '\n'] := by
    rw [front] at next
    rw [← (List.cons.inj next).1]
    decide
  refine Leads.call starts fun result after took => ?_
  obtain ⟨rfl, leaf⟩ := took
  cases leaf with
  | found reads kind span value =>
    obtain rfl := reads.unique (.refl here)
    refine Leads.call (gap_stays ignored whole solid) fun result after skipped => ?_
    obtain ⟨rfl, rfl⟩ := skipped
    refine Leads.callLast (value_fares rules limited within whole front) fun result after took => ?_
    cases result with
    | none => cases took.2
    | some item =>
      obtain ⟨rfl, text, same, reads⟩ := took.of_some
      exact .conclude (.answer reads.precedes fun _ _ => .found same reads _)

end Rules

end Moves

/-! ### Main result -/

/-- The fuel of a call is enough for a string. -/
theorem string_parses {quoted : Quoted} (within : quoted.Within 1024) :
    ∃ found after, parse (textEnv (String.ofList quoted.chars) (some 1024) false []) ampleFuel
      (.rule 0 "document" .normal document) {} = .done (.ok found) after := by
  let env := textEnv (String.ofList quoted.chars) (some 1024) false []
  let root : Expr := .rule 0 "document" .normal document
  have limited : env.repeatLimit = some 1024 := rfl
  have loose : env.isAtomic root = false := rfl
  have ignored : env.skippers = [.rule 13 "WHITESPACE" .silent whiteSpace] := rfl
  have begun : (Position.start env.input).rest = quoted.chars ++ [] :=
    String.toList_ofList.trans (List.append_nil _).symm
  have ample : stringCost 1024 + 53 ≤ ampleFuel := by decide
  obtain ⟨result, middle, took, ran⟩ :=
    (document_fares rfl limited within rfl begun ignored rfl).run_eq_done
      (show ({} : State).stack = {} from rfl) ample
  cases result with
  | none => cases took.2
  | some found =>
    obtain ⟨_, text, same, reads⟩ := took.of_some
    cases same
    have whole : found.stop.input = env.input := reads.input_eq
    have ended : found.stop.rest = [] := by rw [← reads.drop_eq, begun, List.drop_left]
    -- Behind the string nothing is left, neither blanks nor anything else.
    obtain ⟨_, later, ⟨_, rfl⟩, skipped⟩ :=
      (gap_stays ignored whole fun c tail next => nomatch ended.symm.trans next).run_eq_done
        (show middle.stack = middle.stack from rfl) (show 24 + 2 ≤ ampleFuel by decide)
    obtain ⟨last, after, closed, ends⟩ := (Takes.endOfInput found.stop whole).run_eq_done
      (show later.stack = later.stack from rfl) (show 0 + 2 ≤ ampleFuel by decide)
    rw [Reader.ended, ended] at closed
    cases last with
    | none => cases closed.2
    | some last =>
      have rested := (matchRest_eq_done loose).mpr ⟨_, skipped, rfl⟩
      exact ⟨_, after, parse_eq_ok.mpr ⟨_, _, _, _, last, ran, rested, ends, rfl⟩⟩

/-- A string that keeps to the limit is loaded as its code points. -/
theorem load_string {quoted : Quoted} (within : quoted.Within 1024) :
    load (String.ofList quoted.chars) = .ok (.str quoted.points) := by
  let whole : Document := .mk ⟨[], nofun⟩ (.string quoted) ⟨[], nofun⟩
  have chars : whole.chars = quoted.chars := List.append_nil _
  have shallow : whole.depth ≤ ampleRoom := show 4 ≤ ampleRoom by decide
  obtain ⟨enough, loads⟩ := load_document (show whole.Within 1024 from within)
  have loaded := loads (max ampleFuel enough) (Nat.le_max_right ampleFuel enough) ampleRoom
  obtain ⟨first, left, began⟩ := string_parses within
  -- More fuel makes no difference to a parse that ended.
  have same := (parse_approximates _ _ (Nat.le_max_left ampleFuel enough)).eq_done began
  rw [if_pos shallow, chars, load_eq, Reply.ofAction, same] at loaded
  rw [load_eq, Reply.ofAction, began]
  exact loaded

end Peg.Json
