import Mathlib.Data.List.Forall2
import Peg.Proofs.Machine.Timing
import Peg.Proofs.Scan.Parsing

/-!
# Readers

A reader takes a front of a text, or fails. An expression takes what a reader takes if, wherever it
is matched, the machine leads within a bound to the place behind what the reader takes of the rest,
or to a failure, and leaves the stack as it was. Readers are put together as atomic expressions are,
so that what an expression takes can be computed from the rest of the text.
-/
namespace Peg

/-- What takes a front of a text, or fails. -/
abbrev Reader := List Char → Option (List Char)

namespace Reader

/-- Takes a text. -/
def literal (text : List Char) : Reader := fun rest =>
  if text.isPrefixOf rest then some text else none

/-- Takes a character that satisfies a condition. -/
def one (accept : Char → Bool) : Reader
  | [] => none
  | c :: _ => if accept c then some [c] else none

/-- Takes nothing, where nothing is left. -/
def ended : Reader := fun rest => if rest.isEmpty then some [] else none

/-- Takes what the first reader takes that does not fail. -/
def first (readers : List Reader) : Reader := fun rest => readers.findSome? (· rest)

/-- Takes what one reader takes and then what another one takes. -/
def both (front back : Reader) : Reader := fun rest =>
  (front rest).bind fun text => (back (rest.drop text.length)).map (text ++ ·)

/-- Takes what the readers take, one after the other. -/
def row (readers : List Reader) : Reader := readers.foldr both fun _ => some []

/-- Takes nothing, where a reader fails. -/
def absent (reader : Reader) : Reader := fun rest => if (reader rest).isSome then none else some []

/-- What a reader takes again and again until it fails. It may not be more often than allowed. -/
def many (reader : Reader) : (allowed : Nat) → List Char → Option (List (List Char))
  | 0, rest => if (reader rest).isSome then none else some []
  | allowed + 1, rest =>
    match reader rest with
    | none => some []
    | some text => (many reader allowed (rest.drop text.length)).map (text :: ·)

/-- Takes what a reader takes again and again, which has to be often enough and not too often. -/
def repeated (min most : Nat) (reader : Reader) : Reader := fun rest =>
  (many reader most rest).bind fun texts => if texts.length < min then none else some texts.flatten

/-- What the reader takes is some of the characters in a row, and it fails only where there are
none. -/
structure Runs (reader : Reader) (accept : Char → Bool) : Prop where
  stops : ∀ {rest}, reader rest = none → rest.takeWhile accept = []
  goesOn : ∀ {rest text}, reader rest = some text → text ≠ [] ∧ ∀ c ∈ text, accept c = true

theorem repeated_zero (most : Nat) (reader : Reader) (rest : List Char) :
    repeated 0 most reader rest = (many reader most rest).map List.flatten := by
  simp only [repeated, Nat.not_lt_zero, if_false, Option.map_eq_bind]
  rfl

theorem literal_of_front (text tail : List Char) : literal text (text ++ tail) = some text :=
  if_pos (List.isPrefixOf_iff_prefix.mpr ⟨tail, rfl⟩)

theorem literal_of_not_front {text rest : List Char} (other : ∀ tail, rest ≠ text ++ tail) :
    literal text rest = none := by
  refine if_neg fun front => ?_
  obtain ⟨tail, same⟩ := List.isPrefixOf_iff_prefix.mp front
  exact other tail same.symm

theorem literal_eq_some {text rest taken : List Char} :
    literal text rest = some taken ↔ taken = text ∧ ∃ tail, rest = text ++ tail := by
  constructor
  · intro took
    unfold literal at took
    split at took
    next front =>
      obtain ⟨tail, rfl⟩ := List.isPrefixOf_iff_prefix.mp front
      exact ⟨(Option.some.inj took).symm, tail, rfl⟩
    · cases took
  · rintro ⟨rfl, tail, rfl⟩
    exact literal_of_front taken tail

theorem one_runs (accept : Char → Bool) : (one accept).Runs accept where
  stops {rest} missed := by
    cases rest with
    | nil => rfl
    | cons c rest =>
      cases accepted : accept c with
      | true => simp [one, accepted] at missed
      | false => exact List.takeWhile_cons_of_neg (ne_true_of_eq_false accepted)
  goesOn {rest text} taken := by
    cases rest with
    | nil => cases taken
    | cons c rest =>
      cases accepted : accept c with
      | false => simp [one, accepted] at taken
      | true =>
        obtain rfl : [c] = text := by simpa [one, accepted] using taken
        simp [accepted]

/-- To take one of some texts of one character is to take one of these characters. -/
theorem first_literals (chars : List Char) :
    first (chars.map fun c => literal [c]) = one fun c => decide (c ∈ chars) := by
  funext rest
  cases rest with
  | nil => simp [first, literal, one, List.isPrefixOf]
  | cons d rest =>
    induction chars with
    | nil => rfl
    | cons c chars ih =>
      by_cases same : c = d
      · simp [first, literal, one, List.isPrefixOf, same]
      · have later : first (chars.map fun c => literal [c]) (d :: rest) =
            one (fun e => decide (e ∈ c :: chars)) (d :: rest) := by
          rw [ih]
          simp [one, Ne.symm same]
        rw [← later]
        simp [first, literal, List.isPrefixOf, same]

/-- A reader only goes on where another one fails. -/
theorem both_absent (reader back : Reader) (rest : List Char) :
    both (absent reader) back rest = if (reader rest).isSome then none else back rest := by
  cases taken : reader rest with
  | none => simp [both, absent, taken]
  | some text => simp [both, absent, taken]

/-- A reader that takes fronts takes each text at its place, and fails behind the last one. -/
theorem many_eq_some {reader : Reader}
    (fair : ∀ {rest text}, reader rest = some text → ∃ tail, rest = text ++ tail) {allowed : Nat}
    {rest : List Char} {texts : List (List Char)} (taken : many reader allowed rest = some texts) :
    ∃ tail, rest = texts.flatten ++ tail ∧ reader tail = none ∧
      ∀ text ∈ texts, ∃ after, reader (text ++ after) = some text := by
  induction allowed generalizing rest texts with
  | zero =>
    cases missed : reader rest with
    | none =>
      obtain rfl : [] = texts := by simpa [many, missed] using taken
      exact ⟨rest, rfl, missed, nofun⟩
    | some text => simp [many, missed] at taken
  | succ allowed ih =>
    cases missed : reader rest with
    | none =>
      obtain rfl : [] = texts := by simpa [many, missed] using taken
      exact ⟨rest, rfl, missed, nofun⟩
    | some text =>
      obtain ⟨tail, rfl⟩ := fair missed
      simp only [many, missed, List.drop_left, Option.map_eq_some_iff] at taken
      obtain ⟨others, taken, rfl⟩ := taken
      obtain ⟨last, rfl, ended, each⟩ := ih taken
      refine ⟨last, (List.append_assoc _ _ _).symm, ended, ?_⟩
      rw [List.forall_mem_cons]
      exact ⟨⟨_, missed⟩, each⟩

/-- What holds in front of each of some texts, and behind the last one, holds in front of all. -/
theorem starts_flatten {starts : List Char → Prop} {texts : List (List Char)} {tail : List Char}
    (each : ∀ text ∈ texts, ∀ after, starts (text ++ after)) (last : starts tail) :
    starts (texts.flatten ++ tail) := by
  cases texts with
  | nil => exact last
  | cons text texts =>
    rw [List.flatten_cons, List.append_assoc]
    exact each text List.mem_cons_self _

/-- A reader that takes each of some texts, wherever something follows that may, takes all of them
in a row. -/
theorem many_of_each {reader : Reader} {follows : List Char → Prop} {allowed : Nat}
    {texts : List (List Char)} {tail : List Char}
    (each : ∀ text ∈ texts, ∀ after, follows after → reader (text ++ after) = some text)
    (starts : ∀ text ∈ texts, ∀ after, follows (text ++ after)) (last : follows tail)
    (ended : reader tail = none) (few : texts.length ≤ allowed) :
    many reader allowed (texts.flatten ++ tail) = some texts := by
  induction texts generalizing allowed with
  | nil => cases allowed <;> simp [many, ended]
  | cons text texts ih =>
    obtain ⟨allowed, rfl⟩ := Nat.exists_eq_add_of_lt few
    rw [List.forall_mem_cons] at each starts
    rw [List.flatten_cons, List.append_assoc, many, each.1 _ (starts_flatten starts.2 last)]
    dsimp only
    rw [List.drop_left, ih each.2 starts.2 (Nat.le_add_right _ _), Option.map_some]

/-- What a reader of single characters takes again and again is a run of such characters. -/
theorem many_one (accept : Char → Bool) (allowed : Nat) (rest : List Char) :
    many (one accept) allowed rest =
      if (rest.takeWhile accept).length ≤ allowed then some ((rest.takeWhile accept).map ([·]))
      else none := by
  induction allowed generalizing rest with
  | zero =>
    cases rest with
    | nil => rfl
    | cons c rest => cases accepted : accept c <;> simp [many, one, accepted]
  | succ allowed ih =>
    cases rest with
    | nil => rfl
    | cons c rest =>
      cases accepted : accept c with
      | false => simp [many, one, accepted]
      | true =>
        have more : many (one accept) (allowed + 1) (c :: rest) =
            (many (one accept) allowed rest).map ([c] :: ·) := by simp [many, one, accepted]
        rw [more, ih, List.takeWhile_cons_of_pos accepted]
        by_cases few : (rest.takeWhile accept).length ≤ allowed <;> simp [few]

theorem repeated_one (accept : Char → Bool) (min most : Nat) (rest : List Char) :
    repeated min most (one accept) rest =
      if (rest.takeWhile accept).length ≤ most ∧ min ≤ (rest.takeWhile accept).length then
        some (rest.takeWhile accept)
      else none := by
  have joined : ((rest.takeWhile accept).map ([·])).flatten = rest.takeWhile accept := by
    rw [← List.flatMap_def, List.flatMap_singleton']
  rw [repeated, many_one]
  by_cases few : (rest.takeWhile accept).length ≤ most
  · by_cases enough : min ≤ (rest.takeWhile accept).length
    · simp [few, enough, Nat.not_lt.mpr enough, joined]
    · simp [few, enough, Nat.lt_of_not_le enough]
  · simp [few]

end Reader

open Peg.Action (Gives)

/-! ### What expressions take -/

/-- The stack is left alone, and the result is a match of what is taken, or a failure. -/
def Position.Took (here : Position) (stack : Stack Span) (outcome : Option (List Char))
    (result : Option Match) (after : Stack Span) : Prop :=
  after = stack ∧ here.Reaches (result.map Match.stop) outcome

theorem Position.reaches_none_iff {here : Position} {outcome : Option (List Char)} :
    here.Reaches none outcome ↔ outcome = none :=
  ⟨fun reaches => by cases reaches; rfl, fun missed => missed ▸ .failure⟩

theorem Position.reaches_some_iff {here stop : Position} {outcome : Option (List Char)} :
    here.Reaches (some stop) outcome ↔ ∃ text, outcome = some text ∧ here.Reads text stop := by
  constructor
  · rintro ⟨reads⟩
    exact ⟨_, rfl, reads⟩
  · rintro ⟨text, rfl, reads⟩
    exact .success reads

/-- From one place to another only one text is read. -/
theorem Position.Reaches.outcome_unique {here : Position} {stop? : Option Position}
    {outcome other : Option (List Char)} (reaches : here.Reaches stop? outcome)
    (also : here.Reaches stop? other) : outcome = other := by
  cases reaches with
  | success reads =>
    cases also with
    | success more => rw [← reads.segment_eq, more.segment_eq]
  | failure =>
    cases also
    rfl

namespace Position.Took

variable {here : Position} {stack after : Stack Span} {outcome : Option (List Char)} {item : Match}

theorem missed (same : outcome = none) : here.Took stack outcome none stack :=
  ⟨rfl, reaches_none_iff.mpr same⟩

theorem found {text : List Char} {stop : Position} (same : outcome = some text)
    (reads : here.Reads text stop) (node : Option Node) :
    here.Took stack outcome (some ⟨stop, node⟩) stack :=
  ⟨rfl, reaches_some_iff.mpr ⟨text, same, reads⟩⟩

theorem of_none (took : here.Took stack outcome none after) : after = stack ∧ outcome = none :=
  ⟨took.1, reaches_none_iff.mp took.2⟩

theorem of_some (took : here.Took stack outcome (some item) after) :
    after = stack ∧ ∃ text, outcome = some text ∧ here.Reads text item.stop :=
  ⟨took.1, reaches_some_iff.mp took.2⟩

end Position.Took

/-- What was read is left out of the rest. -/
theorem Position.Reads.drop_eq {here stop : Position} {text : List Char}
    (reads : here.Reads text stop) : here.rest.drop text.length = stop.rest := by
  rw [reads.rest_eq, List.drop_left]

/-- The result is a leaf over what is taken, or a failure. -/
inductive Position.Leaf (here : Position) : Option (List Char) → Option Match → Prop
  | missed : Leaf here none none
  | found {text : List Char} {stop : Position} (reads : here.Reads text stop)
      (kind : TerminalKind) (span : Span) (value : String) :
      Leaf here (some text) (some ⟨stop, some (.terminal kind span value)⟩)

theorem Position.Leaf.reaches {here : Position} {outcome : Option (List Char)}
    {result : Option Match} (leaf : here.Leaf outcome result) :
    here.Reaches (result.map Match.stop) outcome := by
  cases leaf with
  | missed => exact .failure
  | found reads => exact .success reads

theorem Position.Leaf.of_none {here : Position} {outcome : Option (List Char)}
    (leaf : here.Leaf outcome none) : outcome = none := by
  cases leaf
  rfl

theorem Position.Leaf.of_some {here : Position} {outcome : Option (List Char)} {item : Match}
    (leaf : here.Leaf outcome (some item)) : ∃ text kind span value, outcome = some text ∧
      here.Reads text item.stop ∧ item.node = some (.terminal kind span value) := by
  cases leaf with
  | found reads kind span value => exact ⟨_, kind, span, value, rfl, reads, rfl⟩

namespace Terminal

variable {stack : Stack Span} {here stop : Position} {text : List Char}

theorem found_gives (kind : TerminalKind) (value : String) (reads : here.Reads text stop) :
    (found kind here stop value).Gives stack fun result after =>
      after = stack ∧ here.Leaf (some text) result :=
  .answer reads.precedes fun span _ => ⟨rfl, .found reads kind span value⟩

theorem missed_gives (failure : Failure) (offset : Nat) :
    (missed failure offset).Gives stack fun result after =>
      after = stack ∧ here.Leaf none result :=
  .missed _ ⟨rfl, .missed⟩

end Terminal

theorem Position.matchLiteral_reaches (here : Position) (text : String) :
    here.Reaches (here.matchLiteral text) (Reader.literal text.toList here.rest) := by
  cases found : here.matchLiteral text with
  | some stop =>
    have reads := Position.reads_of_matchLiteral found
    rw [reads.rest_eq, Reader.literal_of_front]
    exact .success reads
  | none =>
    rw [Reader.literal_of_not_front (Position.not_front_of_matchLiteral found)]
    exact .failure

theorem Position.matchChar_reaches (here : Position) (accept : Char → Bool) :
    here.Reaches ((here.matchChar accept).map Prod.fst) (Reader.one accept here.rest) := by
  unfold Position.matchChar
  split
  next inside =>
    have reads := Position.reads_of_lt inside
    rw [reads.rest_eq]
    cases accepted : accept here.input.chars[here.offset] with
    | true =>
      simp only [List.singleton_append, Reader.one, accepted, if_pos]
      exact .success reads
    | false =>
      simp only [List.singleton_append, Reader.one, accepted]
      exact .failure
  next outside =>
    rw [Position.rest_of_not_lt outside]
    exact .failure

namespace Machine

/-- A rule takes what its body takes. -/
theorem Fares.ruleTook {env : Env} {cost tag : Nat} {name : String} {kind : RuleKind} {body : Expr}
    {here : Position} {atomic : Bool} {stack : Stack Span} {outcome : Option (List Char)}
    (fares : Fares env cost body here (kind.bodyAtomic atomic) stack (here.Took stack outcome)) :
    Fares env (cost + 2) (.rule tag name kind body) here atomic stack
      (here.Took stack outcome) := by
  refine .rule fares (fun _ took => took) (fun _ _ _ took => took) fun _ found after took => ?_
  obtain ⟨rfl, text, same, reads⟩ := took.of_some
  exact ⟨reads.precedes, fun _ _ => .found same reads _⟩

/-- Wherever the expression is matched with the stack, the machine leads within a bound to what the
reader takes of the rest, and the stack is left alone. -/
def Takes (env : Env) (cost : Nat) (expr : Expr) (atomic : Bool) (stack : Stack Span)
    (reader : Reader) : Prop :=
  ∀ here, here.input = env.input →
    Fares env cost expr here atomic stack (here.Took stack (reader here.rest))

namespace Takes

variable {env : Env} {cost other : Nat} {expr first second : Expr} {atomic : Bool}
  {stack : Stack Span} {reader front back : Reader}

theorem mono (takes : Takes env cost expr atomic stack reader) (le : cost ≤ other) :
    Takes env other expr atomic stack reader := fun here whole =>
  (takes here whole).mono le fun _ _ took => took

end Takes

end Machine

namespace Terminal

variable {stack : Stack Span} (here : Position)

/-- What a leaf at the position says of a result, with the stack left alone. -/
abbrev LeafGives (action : Action (Option Match)) (stack : Stack Span) (here : Position)
    (outcome : Option (List Char)) : Prop :=
  action.Gives stack fun result after => after = stack ∧ here.Leaf outcome result

theorem literal_gives (text : String) :
    LeafGives ((literal text).attempt here) stack here (Reader.literal text.toList here.rest) := by
  have reaches := here.matchLiteral_reaches text
  generalize Reader.literal text.toList here.rest = outcome at reaches
  rw [attempt]
  generalize here.matchLiteral text = reached at reaches
  cases reaches with
  | success reads => exact found_gives .literal text reads
  | failure => exact missed_gives _ _

theorem character_gives (accept : Char → Bool) (kind : TerminalKind) (failure : Failure) :
    LeafGives (match here.matchChar accept with
      | some (stop, c) => found kind here stop c.toString
      | none => missed failure here.offset) stack here (Reader.one accept here.rest) := by
  have reaches := here.matchChar_reaches accept
  generalize Reader.one accept here.rest = outcome at reaches
  generalize here.matchChar accept = reached at reaches
  match reached with
  | some (stop, c) =>
    cases reaches with
    | success reads => exact found_gives kind c.toString reads
  | none =>
    cases reaches with
    | failure => exact missed_gives failure here.offset

theorem endOfInput_gives :
    LeafGives (endOfInput.attempt here) stack here (Reader.ended here.rest) := by
  have ended : here.atEnd = here.rest.isEmpty := by
    rw [Bool.eq_iff_iff, Scan.atEnd_iff, List.isEmpty_iff]
  rw [attempt, ended, Reader.ended]
  cases here.rest.isEmpty with
  | true => exact found_gives .eoi "" (.refl here)
  | false => exact missed_gives _ _

/-- The texts of line endings, in the order in which they are tried. -/
theorem matchLineEnding_gives (endings : List (String × String)) :
    LeafGives (matchLineEnding here endings) stack here
      (Reader.first (endings.map fun ending => Reader.literal ending.1.toList) here.rest) := by
  induction endings with
  | nil => exact missed_gives _ _
  | cons ending rest ih =>
    obtain ⟨text, name⟩ := ending
    have reaches := here.matchLiteral_reaches text
    simp only [matchLineEnding, Reader.first, List.map_cons, List.findSome?_cons]
    generalize Reader.literal text.toList here.rest = outcome at reaches
    generalize here.matchLiteral text = reached at reaches
    cases reaches with
    | success reads => exact found_gives .newline name reads
    | failure => exact ih

theorem matchText_gives (text : String) : (matchText here text).Gives stack fun reached after =>
    after = stack ∧ here.Reaches reached (Reader.literal text.toList here.rest) := by
  have reaches := here.matchLiteral_reaches text
  rw [matchText]
  cases matched : here.matchLiteral text with
  | some stop => exact .pure ⟨rfl, matched ▸ reaches⟩
  | none => exact (Gives.track _).bind fun _ _ same => .pure ⟨same, matched ▸ reaches⟩

/-- The text of the span on top of the stack is taken, and then the stack is changed. -/
theorem matchTop_gives {top : Span} (holds : stack.peek? = some top) (kind : TerminalKind)
    (consume : Stack Span → Stack Span) : (matchTop kind consume here).Gives stack
      fun result after => here.Leaf (Reader.literal top.text.toList here.rest) result ∧
        after = if result.isSome then consume stack else stack := by
  refine Gives.getStack.bind ?_
  rintro _ _ ⟨rfl, rfl⟩
  rw [holds]
  refine (matchText_gives here top.text).bind fun reached middle matched => ?_
  obtain ⟨rfl, reaches⟩ := matched
  generalize Reader.literal top.text.toList here.rest = outcome at reaches
  cases reaches with
  | failure => exact .pure ⟨.missed, rfl⟩
  | success reads =>
    refine (Gives.changeStack consume).bind ?_
    rintro _ _ rfl
    refine (found_gives kind top.text reads).mono fun result after leaf => ?_
    obtain ⟨rfl, leaf⟩ := leaf
    refine ⟨leaf, ?_⟩
    cases leaf
    rfl

/-- The span on top of the stack is taken off if its text comes next. -/
theorem pop_gives {top : Span} (holds : stack.peek? = some top) : (pop.attempt here).Gives stack
    fun result after => here.Leaf (Reader.literal top.text.toList here.rest) result ∧
      (result.isSome = true → after = stack.pop.2) :=
  (matchTop_gives here holds .pop fun stack => stack.pop.2).mono fun _ _ took =>
    ⟨took.1, fun matched => by rw [took.2, if_pos matched]⟩

end Terminal

namespace Machine

namespace Takes

variable {env : Env} {cost other : Nat} {expr first second : Expr} {atomic : Bool}
  {stack : Stack Span} {reader front back : Reader}

theorem of_gives {leaf : Terminal}
    (gives : ∀ here, Terminal.LeafGives (leaf.attempt here) stack here (reader here.rest)) :
    Takes env 0 (.terminal leaf) atomic stack reader := fun here _ =>
  .terminal ((gives here).mono fun _ _ took => ⟨took.1, took.2.reaches⟩)

theorem literal (text : String) :
    Takes env 0 (.literal text) atomic stack (.literal text.toList) :=
  of_gives fun here => Terminal.literal_gives here text

theorem charRange (low high : Char) :
    Takes env 0 (.charRange low high) atomic stack (.one fun c => low ≤ c && c ≤ high) :=
  of_gives fun here => Terminal.character_gives here _ _ _

theorem any : Takes env 0 (.terminal .any) atomic stack (.one fun _ => true) :=
  of_gives fun here => Terminal.character_gives here _ _ _

theorem endOfInput : Takes env 0 (.terminal .endOfInput) atomic stack .ended :=
  of_gives fun here => Terminal.endOfInput_gives here

theorem peek {top : Span} (holds : stack.peek? = some top) :
    Takes env 0 (.terminal .peek) atomic stack (.literal top.text.toList) := fun here _ =>
  .terminal ((Terminal.matchTop_gives here holds .peek id).mono fun result after took => by
    refine ⟨?_, took.1.reaches⟩
    rw [took.2]
    split <;> rfl)

/-! ### Rules -/

theorem ref {name : String} {target : Expr} (known : env.rules.lookup name = some target)
    (takes : Takes env cost target atomic stack reader) :
    Takes env (cost + 1) (.ref name) atomic stack reader := fun here whole =>
  .ref known (takes here whole)

theorem rule {tag : Nat} {name : String} {kind : RuleKind}
    (takes : Takes env cost expr (kind.bodyAtomic atomic) stack reader) :
    Takes env (cost + 2) (.rule tag name kind expr) atomic stack reader :=
  fun here whole => .ruleTook (takes here whole)

/-- The match of an atomic rule is a node over what is taken. -/
theorem atomicRule (takes : Takes env cost expr true stack reader) (tag : Nat) (name : String)
    (here : Position) (whole : here.input = env.input) :
    Fares env (cost + 2) (.rule tag name .atomic expr) here atomic stack fun result after =>
      after = stack ∧ match result with
        | none => reader here.rest = none
        | some found => ∃ text span, reader here.rest = some text ∧ here.Reads text found.stop ∧
            found.node = some (.rule name span none) ∧ span.text = String.ofList text := by
  refine .rule (takes here whole) (fun _ took => took.of_none) nofun fun _ found after took => ?_
  obtain ⟨rfl, text, same, reads⟩ := took.of_some
  refine ⟨reads.precedes, fun span covers => ⟨rfl, text, span, same, reads, rfl, ?_⟩⟩
  rw [covers.text_eq, reads.segment_eq]

theorem negative (plain : expr.shownCells = [])
    (takes : Takes env cost expr atomic stack.snapshot reader) :
    Takes env (cost + 2) (.negative expr) atomic stack reader.absent := by
  intro here whole
  refine .negative plain (takes here whole) (fun _ _ took => took.1) (fun _ _ took => ?_)
    fun item took => ?_
  · obtain ⟨_, missed⟩ := took.of_none
    exact .found (by rw [Reader.absent, missed]; rfl) (.refl here) _
  · obtain ⟨_, text, same, _⟩ := took.of_some
    exact .missed (by rw [Reader.absent, same]; rfl)

/-! ### Sequences and choices -/

theorem seq (early : Takes env cost first true stack front)
    (late : Takes env other second true stack back) :
    Takes env (cost + (other + 2) + 2) (.seq first [second]) true stack (front.both back) := by
  intro here whole
  refine Leads.item (early here whole) (fun after took => ?_) fun item after took => ?_
  · obtain ⟨rfl, missed⟩ := took.of_none
    exact .missed (by rw [Reader.both, missed]; rfl)
  · obtain ⟨rfl, text, same, reads⟩ := took.of_some
    have onward : front.both back here.rest = (back item.stop.rest).map (text ++ ·) := by
      rw [Reader.both, same, Option.bind_some, reads.drop_eq]
    have next := late item.stop (reads.input_eq.trans whole)
    refine Leads.lastItem next (fun after took => ?_) fun last after took => ?_
    · obtain ⟨rfl, missed⟩ := took.of_none
      exact .missed (by rw [onward, missed]; rfl)
    · obtain ⟨rfl, more, found, further⟩ := took.of_some
      have all := reads.trans further
      exact ⟨all.precedes, fun _ _ => .found (by rw [onward, found]; rfl) all _⟩

/-- The items of a sequence that are left, after what others have taken. -/
theorem items {rest : List Expr} {readers : List Reader} {start here : Position}
    {found : Array (Option Node)} {taken : List Char} (reads : start.Reads taken here)
    (whole : here.input = env.input)
    (each : List.Forall₂ (fun expr reader => Takes env cost expr true stack reader)
      (first :: rest) readers) :
    Leads env ((rest.length + 1) * (cost + 2))
      (pure (.call (.seqItem start rest found true) first here true)) stack
      (start.Took stack ((Reader.row readers here.rest).map (taken ++ ·))) := by
  induction rest generalizing first here found taken readers with
  | nil =>
    obtain _ | ⟨takes, nothing⟩ := each
    cases nothing
    refine (Leads.lastItem (takes here whole) (fun after took => ?_)
      fun item after took => ?_).mono (by rw [List.length_nil]; omega) fun _ _ took => took
    · obtain ⟨rfl, missed⟩ := took.of_none
      exact .missed (by simp [Reader.row, Reader.both, missed])
    · obtain ⟨rfl, text, same, further⟩ := took.of_some
      have all := reads.trans further
      exact ⟨all.precedes, fun _ _ => .found (by simp [Reader.row, Reader.both, same]) all _⟩
  | cons second rest ih =>
    obtain _ | @⟨_, reader, _, readers, takes, others⟩ := each
    have cost_eq : (rest.length + 1 + 1) * (cost + 2) =
        cost + (rest.length + 1) * (cost + 2) + 2 := by
      rw [Nat.succ_mul]
      omega
    rw [List.length_cons, cost_eq]
    refine Leads.item (takes here whole) (fun after took => ?_) fun item after took => ?_
    · obtain ⟨rfl, missed⟩ := took.of_none
      exact .missed (by simp [Reader.row, Reader.both, missed])
    · obtain ⟨rfl, text, same, further⟩ := took.of_some
      have onward : (Reader.row (reader :: readers) here.rest).map (taken ++ ·) =
          (Reader.row readers item.stop.rest).map (taken ++ text ++ ·) := by
        simp [Reader.row, Reader.both, same, further.drop_eq, Function.comp_def]
      rw [onward]
      exact ih (reads.trans further) (further.input_eq.trans whole) others

theorem row {rest : List Expr} {readers : List Reader}
    (each : List.Forall₂ (fun expr reader => Takes env cost expr true stack reader)
      (first :: rest) readers) :
    Takes env ((rest.length + 1) * (cost + 2)) (.seq first rest) true stack
      (.row readers) := by
  intro here whole
  refine (items (.refl here) whole each).mono (Nat.le_refl _) fun result after took => ?_
  simpa using took

theorem choice {rest : List Expr} {readers : List Reader}
    (each : List.Forall₂ (fun expr reader => Takes env cost expr atomic stack reader)
      (first :: rest) readers) :
    Takes env ((rest.length + 1) * (cost + 2)) (.choice first rest) atomic stack
      (.first readers) := by
  intro here whole
  change Leads env _ (pure (.call (.choice here 0 rest atomic) first here atomic)) stack _
  generalize 0 = index
  induction rest generalizing first index readers with
  | nil =>
    obtain _ | ⟨takes, nothing⟩ := each
    cases nothing
    refine (Leads.lastAlternative (takes here whole) (fun after took => ?_)
      fun item after took => ?_).mono (by rw [List.length_nil]; omega) fun _ _ took => took
    · obtain ⟨rfl, missed⟩ := took.of_none
      exact .missed (by rw [Reader.first, List.findSome?_cons, missed]; rfl)
    · obtain ⟨rfl, text, same, reads⟩ := took.of_some
      exact ⟨reads.precedes, fun _ _ =>
        .found (by rw [Reader.first, List.findSome?_cons, same]) reads _⟩
  | cons second rest ih =>
    obtain _ | ⟨takes, others⟩ := each
    have cost_eq : (rest.length + 1 + 1) * (cost + 2) =
        cost + (rest.length + 1) * (cost + 2) + 2 := by
      rw [Nat.succ_mul]
      omega
    rw [List.length_cons, cost_eq]
    refine Leads.alternative (takes here whole) (fun after took => ?_) fun item after took => ?_
    · obtain ⟨rfl, missed⟩ := took.of_none
      rw [Reader.first, List.findSome?_cons, missed]
      exact ih others _
    · obtain ⟨rfl, text, same, reads⟩ := took.of_some
      exact ⟨reads.precedes, fun _ _ =>
        .found (by rw [Reader.first, List.findSome?_cons, same]) reads _⟩

/-! ### Repetitions -/

/-- What a repetition takes that has taken some text so often already. -/
def more (min count : Nat) (taken : List Char) (texts : Option (List (List Char))) :
    Option (List Char) :=
  texts.bind fun texts =>
    if count + texts.length < min then none else some (taken ++ texts.flatten)

theorem rep_gives {min : Nat} {start here : Position} {found : Array (Option Node)}
    {taken : List Char} (reads : start.Reads taken here) : (Clause.rep min start here found).Gives
      stack (start.Took stack (more min found.size taken (some []))) := by
  refine Leads.rep_gives reads.precedes (fun few => .missed ?_) fun enough _ _ => .found ?_ reads _
  · simp [more, few]
  · simp [more, Nat.not_lt.mpr enough]

/-- A repetition that has found so many matches goes on to the matches that are left. -/
theorem continueRep {limit : Nat} (limited : env.repeatLimit = some limit)
    (takes : Takes env cost expr true stack reader) (min : Nat) {start here : Position}
    {found : Array (Option Node)} {taken : List Char} (whole : here.input = env.input)
    (reads : start.Reads taken here) {allowed : Nat} (left : found.size + allowed = limit) :
    Leads env ((allowed + 1) * (cost + 2)) (continueRep ⟨expr, min, none, true, start⟩ here found)
      stack (start.Took stack (more min found.size taken (reader.many allowed here.rest))) := by
  have cost_eq (allowed : Nat) :
      (allowed + 1) * (cost + 2) = cost + allowed * (cost + 2) + 2 := by
    rw [Nat.succ_mul]
    omega
  induction allowed generalizing here found taken with
  | zero =>
    rw [cost_eq]
    refine Leads.round rfl (Bool.or_true _) (Leads.attempt (takes here whole)
      (fun after took => ?_) (fun _ item after took => ?_) fun within => ?_)
    · obtain ⟨rfl, missed⟩ := took.of_none
      rw [Reader.many, missed]
      exact rep_gives reads
    · obtain ⟨rfl, text, same, _⟩ := took.of_some
      exact .missed (by rw [Reader.many, same]; rfl)
    · exact absurd within (by simp [Clause.beyondLimit, limited, ← left])
  | succ allowed ih =>
    rw [cost_eq]
    refine Leads.round rfl (Bool.or_true _) (Leads.attempt (takes here whole)
      (fun after took => ?_) (fun beyond => ?_) fun _ item after took => ?_)
    · obtain ⟨rfl, missed⟩ := took.of_none
      rw [Reader.many, missed]
      exact rep_gives reads
    · exact absurd (by simp [Clause.beyondLimit, limited]; omega) beyond
    · obtain ⟨rfl, text, same, further⟩ := took.of_some
      have onward : more min found.size taken (reader.many (allowed + 1) here.rest) =
          more min (found.push item.node).size (taken ++ text)
            (reader.many allowed item.stop.rest) := by
        simp only [Reader.many, same, ← further.drop_eq, Array.size_push]
        cases reader.many allowed (here.rest.drop text.length) with
        | none => rfl
        | some texts => simp [more, Nat.add_comm, Nat.add_left_comm]
      rw [onward]
      exact ih (further.input_eq.trans whole) (reads.trans further)
        (by rw [Array.size_push]; omega)

theorem rep {limit : Nat} (limited : env.repeatLimit = some limit)
    (takes : Takes env cost expr true stack reader) (min : Nat) :
    Takes env ((limit + 1) * (cost + 2)) (.rep expr min none) true stack
      (.repeated min limit reader) := by
  intro here whole
  have none : (#[] : Array (Option Node)).size + limit = limit := Nat.zero_add limit
  refine (continueRep limited takes min whole (.refl here) none).mono (Nat.le_refl _)
    fun result after took => ?_
  simpa [more, Reader.repeated] using took

/-- What the reader takes is what is taken of the text. -/
theorem reader_eq (takes : Takes env cost expr atomic stack reader) {here : Position}
    {outcome : Option (List Char)} (whole : here.input = env.input)
    (scanned : (Scan.expr env atomic expr).Takes env here.rest outcome) :
    reader here.rest = outcome := by
  obtain ⟨result, after, finishes, reaches⟩ := scanned.finishes whole rfl { stack }
  obtain ⟨other, left, ⟨_, also⟩, ran⟩ :=
    (takes here whole).run_eq_done (show ({ stack } : State).stack = stack from rfl)
      (Nat.le_refl (cost + 2))
  obtain ⟨rfl, _⟩ := finishes.unique ⟨_, ran⟩
  exact also.outcome_unique reaches

end Takes

/-! ### Ignored text -/

/-- A run of such characters is skipped, and the stack is left alone. -/
def Skipped (here : Position) (accept : Char → Bool) (stack : Stack Span) (result : Option Match)
    (after : Stack Span) : Prop :=
  after = stack ∧ ∃ stop, result = some ⟨stop, none⟩ ∧
    here.Reads (here.rest.takeWhile accept) stop

/-- Behind a run of such characters the rest is left. -/
theorem rest_of_reads_takeWhile {here stop : Position} {accept : Char → Bool}
    (reads : here.Reads (here.rest.takeWhile accept) stop) :
    stop.rest = here.rest.dropWhile accept :=
  List.append_cancel_left (reads.rest_eq.symm.trans List.takeWhile_append_dropWhile.symm)

/-- After some of the characters the others are skipped. -/
theorem Skipped.after_reads {here middle : Position} {accept : Char → Bool}
    {stack after : Stack Span} {result : Option Match} {text : List Char}
    (skipped : Skipped middle accept stack result after) (reads : here.Reads text middle)
    (accepted : ∀ c ∈ text, accept c = true) : Skipped here accept stack result after := by
  obtain ⟨rfl, stop, rfl, others⟩ := skipped
  refine ⟨rfl, stop, rfl, ?_⟩
  rw [reads.rest_eq, List.takeWhile_append_of_pos accepted]
  exact reads.trans others

/-- Where the reader fails, a frame receives the failure. -/
theorem Takes.call_missed {env : Env} {cost later : Nat} {expr : Expr} {atomic : Bool}
    {stack : Stack Span} {reader : Reader} (takes : Takes env cost expr atomic stack reader)
    {here : Position} (whole : here.input = env.input) (missed : reader here.rest = none)
    {frame : Frame} {good : Option Match → Stack Span → Prop}
    (leads : Leads env later (receive env frame none) stack good) :
    Leads env (cost + later + 2) (pure (.call frame expr here atomic)) stack good := by
  refine Leads.call (takes here whole) fun result after took => ?_
  cases result with
  | none =>
    obtain ⟨rfl, _⟩ := took.of_none
    exact leads
  | some item =>
    obtain ⟨_, text, same, _⟩ := took.of_some
    cases missed.symm.trans same

section Ignored

variable {env : Env} {cost : Nat} {skipper : Expr} (ignores : env.skippers = [skipper])
  {stack : Stack Span} {reader : Reader} {accept : Char → Bool}
  (takes : Takes env cost skipper true stack reader) (runs : reader.Runs accept)

include ignores takes runs

/-- Where nothing more is ignored, that is found out once, or twice if something was skipped. -/
theorem skip_ends {here : Position} (whole : here.input = env.input)
    (missed : reader here.rest = none) (progress : Bool) :
    Leads env (2 * (cost + 2)) (pure (.call (.skip here skipper [] progress) skipper here true))
      stack (Skipped here accept stack) := by
  have ended : Skipped here accept stack (some ⟨here, none⟩) stack :=
    ⟨rfl, here, rfl, by rw [runs.stops missed]; exact .refl here⟩
  have closes : Leads env 0 (receive env (.skip here skipper [] false) none) stack
      (Skipped here accept stack) := by
    simp only [receive, continueSkip, ignores]
    exact .closeScope _ (.answer ended)
  have last := takes.call_missed whole missed closes
  cases progress with
  | false => exact last.mono (by omega) fun _ _ skipped => skipped
  | true =>
    have again : Leads env (cost + 2) (receive env (.skip here skipper [] true) none) stack
        (Skipped here accept stack) := by
      simp only [receive, continueSkip, ignores]
      exact last
    exact (takes.call_missed whole missed again).mono (by omega) fun _ _ skipped => skipped

/-- Each time that something is skipped, less is left. -/
theorem skip_skips {here : Position} (whole : here.input = env.input) (progress : Bool) :
    Leads env ((here.rest.length + 2) * (cost + 2))
      (pure (.call (.skip here skipper [] progress) skipper here true)) stack
      (Skipped here accept stack) := by
  induction left : here.rest.length using Nat.strongRecOn generalizing here progress with
  | ind length ih =>
    cases taken : reader here.rest with
    | none =>
      exact (skip_ends ignores takes runs whole taken progress).mono
        (Nat.mul_le_mul_right _ (Nat.le_add_left 2 _)) fun _ _ skipped => skipped
    | some text =>
      obtain ⟨nonempty, accepted⟩ := runs.goesOn taken
      have some : 0 < text.length := List.length_pos_iff.mpr nonempty
      have cost_eq : (length + 2) * (cost + 2) = cost + (length + 1) * (cost + 2) + 2 := by
        rw [Nat.succ_mul]
        omega
      rw [cost_eq]
      refine Leads.call (takes here whole) fun result after took => ?_
      cases result with
      | none =>
        obtain ⟨_, missed⟩ := took.of_none
        cases missed.symm.trans taken
      | some item =>
        obtain ⟨rfl, _, same, reads⟩ := took.of_some
        cases taken.symm.trans same
        have shorter : text.length + item.stop.rest.length = length := by
          rw [← left, reads.rest_eq, List.length_append]
        have further : item.stop.same here = false := by
          simp [Position.same, reads.offset_eq, nonempty]
        have others := ih item.stop.rest.length (by omega) (reads.input_eq.trans whole) true rfl
        simp only [receive, further, Bool.false_eq_true, if_false]
        exact others.mono (Nat.mul_le_mul_right _ (by omega)) fun _ _ skipped =>
          skipped.after_reads reads accepted

omit takes runs in
/-- To match ignored text is to try the only kind of it, in a muted scope. -/
theorem ignored_of_skip {other : Nat} {here : Position} {good : Option Match → Stack Span → Prop}
    (leads : Leads env other (pure (.call (.skip here skipper [] false) skipper here true)) stack
      good) : Fares env other .ignored here false stack good := by
  have begun : begin env .ignored here false = openScope (some .muted) >>= fun _ =>
      pure (.call (.skip here skipper [] false) skipper here true) := by
    simp [begin, continueSkip, ignores]
  rw [Fares, begun]
  exact .openScope _ leads

theorem ignored_skips {here : Position} (whole : here.input = env.input) :
    Fares env ((here.rest.length + 2) * (cost + 2)) .ignored here false stack
      (Skipped here accept stack) :=
  ignored_of_skip ignores (skip_skips ignores takes runs whole false)

/-- Where nothing is to be ignored, that is found out at once. -/
theorem ignored_stays {here : Position} (whole : here.input = env.input)
    (missed : reader here.rest = none) :
    Fares env (2 * (cost + 2)) .ignored here false stack (Skipped here accept stack) :=
  ignored_of_skip ignores (skip_ends ignores takes runs whole missed false)

end Ignored

end Machine

end Peg
