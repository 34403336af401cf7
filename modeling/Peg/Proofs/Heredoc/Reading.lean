import Peg.Heredoc
import Peg.Proofs.Machine.Readers
import Peg.Proofs.Parse.Independence
import Peg.Proofs.Parse.Limits
import Peg.Proofs.Tree.Preorder

/-!
# Reading documents between tags

What the rules of the grammar take is written down as readers: a tag, a line, a line of the body,
which depends on the tag, and from these a document, the documents of a text, and a whole text. Of
the stack only the tag is left in that. It is pushed where the first tag is read, it is on top of
the stack in the body, where each line is held against it, and it is taken off by the last tag. So
the stack is empty again behind each document.

The machine leads to what is read within a number of moves that depends on the length of the text
and on the limit of repetitions.

## Main results

* What a call answers for a text is what is read of the text.
* Where a text can be read and is not too long for the fuel of a call, the call answers.
-/
namespace Peg.Heredoc

open Machine Reader

/-! ### What the rules take -/

/-- A character that may stand in a tag. -/
def isTagChar (c : Char) : Bool := ('A' ≤ c && c ≤ 'Z') || c == '_'

/-- A character that belongs to no line ending. -/
def isPlain (c : Char) : Bool := c != '\r' && c != '\n'

/-- A character that may stand between documents. -/
def isBlank (c : Char) : Bool := c == ' ' || c == '\t' || !isPlain c

/-- Takes a line ending. -/
def lineEnding : Reader :=
  first (Terminal.lineEndings.map fun ending => literal ending.1.toList)

/-- Takes a blank, or a line ending. -/
def blank : Reader := first [literal [' '], literal ['\t'], lineEnding]

/-- Takes a tag of at most so many characters. -/
def tagReader (most : Nat) : Reader := repeated 1 most (one isTagChar)

/-- Takes a line of at most so many characters, and its ending. -/
def lineReader (most : Nat) : Reader := both (repeated 0 most (one isPlain)) lineEnding

/-- Takes a tag that is alone on the rest of its line, and the ending of that. -/
def closing (tag : List Char) : Reader := both (literal tag) (first [lineEnding, ended])

/-- Takes a line of a body, which is not one that holds the tag only. -/
def bodyLine (most : Nat) (tag : List Char) : Reader :=
  both (absent (closing tag)) (lineReader most)

/-- A document between tags. -/
structure Block where
  /-- The tag. -/
  tag : List Char
  /-- The line ending behind the first tag. -/
  opened : List Char
  /-- The lines of the body, each with its ending. -/
  lines : List (List Char)

namespace Block

/-- The text of the body. -/
def body (block : Block) : List Char := block.lines.flatten

/-- The text of the document. -/
def chars (block : Block) : List Char :=
  ['<', '<'] ++ (block.tag ++ (block.opened ++ (block.body ++ block.tag)))

/-- The tag and the body. -/
def pair (block : Block) : String × String := (String.ofList block.tag, String.ofList block.body)

end Block

/-- Reads a document between tags. -/
def block? (most : Nat) (rest : List Char) : Option Block :=
  (literal ['<', '<'] rest).bind fun opening =>
  let rest := rest.drop opening.length
  (tagReader most rest).bind fun tag =>
  let rest := rest.drop tag.length
  (lineEnding rest).bind fun opened =>
  let rest := rest.drop opened.length
  (many (bodyLine most tag) most rest).bind fun lines =>
  let rest := rest.drop lines.flatten.length
  (literal tag rest).map fun tag => ⟨tag, opened, lines⟩

/-- Reads documents, with blanks behind each, and answers them with what is left. They may not be
more than allowed. -/
def blocks? (most : Nat) : (allowed : Nat) → List Char → Option (List Block × List Char)
  | 0, rest => if (block? most rest).isSome then none else some ([], rest)
  | allowed + 1, rest =>
    match block? most rest with
    | none => some ([], rest)
    | some block =>
      (blocks? most allowed ((rest.drop block.chars.length).dropWhile isBlank)).map
        fun (blocks, left) => (block :: blocks, left)

/-- Reads the documents of a text, of which nothing else may be left than blanks. -/
def read? (most : Nat) (text : List Char) : Option (List Block) :=
  (blocks? most most text).bind fun (blocks, left) =>
    if (left.dropWhile isBlank).isEmpty then some blocks else none

/-! ### Characters -/

theorem lineEnding_eq :
    lineEnding = first [literal ['\r', '\n'], literal ['\n'], literal ['\r']] := rfl

theorem lineEnding_endings :
    [['\r', '\n'], ['\n'], ['\r']].map literal =
      Terminal.lineEndings.map fun ending => literal ending.1.toList := rfl

theorem lineEnding_of_plain {c : Char} (plain : isPlain c = true) (rest : List Char) :
    lineEnding (c :: rest) = none := by
  simp only [isPlain, Bool.and_eq_true, bne_iff_ne, ne_eq] at plain
  simp [lineEnding_eq, first, literal, List.isPrefixOf, Ne.symm plain.1, Ne.symm plain.2]

/-- A line ending is one of three. -/
theorem lineEnding_eq_some {rest ending : List Char} (taken : lineEnding rest = some ending) :
    ending ∈ [['\r', '\n'], ['\n'], ['\r']] ∧ ∃ tail, rest = ending ++ tail := by
  obtain ⟨reader, among, taken⟩ := List.exists_of_findSome?_eq_some taken
  rw [← lineEnding_endings, List.mem_map] at among
  obtain ⟨text, among, rfl⟩ := among
  obtain ⟨rfl, front⟩ := literal_eq_some.mp taken
  exact ⟨among, front⟩

/-- There is a line ending where the next character belongs to one. -/
theorem lineEnding_isSome (rest : List Char) :
    (lineEnding rest).isSome = rest.head?.any (!isPlain ·) := by
  cases rest with
  | nil => rfl
  | cons c rest =>
    rw [List.head?_cons, Option.any_some]
    cases plain : isPlain c with
    | true => rw [lineEnding_of_plain plain, Option.isSome_none, Bool.not_true]
    | false =>
      have ends : c = '\r' ∨ c = '\n' := by
        by_cases same : c = '\r'
        · exact .inl same
        · exact .inr (by simpa [isPlain, same] using plain)
      rw [lineEnding_eq]
      refine List.findSome?_isSome_iff.mpr ⟨literal [c], ?_, ?_⟩
      · rcases ends with rfl | rfl <;> simp
      · rw [show c :: rest = [c] ++ rest from rfl, literal_of_front]
        rfl

theorem first_tagChar : first [one fun c => 'A' ≤ c && c ≤ 'Z', literal "_".toList] =
    one isTagChar := by
  funext rest
  cases rest with
  | nil => rfl
  | cons c rest =>
    cases upper : decide ('A' ≤ c) && decide (c ≤ 'Z') with
    | true => simp [first, one, isTagChar, upper]
    | false =>
      by_cases line : c = '_'
      · subst line
        rfl
      · simp [first, one, isTagChar, upper, literal, List.isPrefixOf, line, Ne.symm line]

theorem both_plain : both (absent lineEnding) (one fun _ => true) = one isPlain := by
  funext rest
  cases rest with
  | nil => rfl
  | cons c rest =>
    have ends := lineEnding_isSome (c :: rest)
    rw [List.head?_cons, Option.any_some] at ends
    simp only [both, absent, ends]
    cases plain : isPlain c <;> simp [one, plain]

theorem literal_singleton_isSome (c d : Char) (rest : List Char) :
    (literal [d] (c :: rest)).isSome = (c == d) := by
  by_cases same : c = d
  · subst same
    rw [show c :: rest = [c] ++ rest from rfl, literal_of_front, beq_self_eq_true]
    rfl
  · simp [literal, List.isPrefixOf, Ne.symm same, same]

/-- There is a blank where the next character is one. -/
theorem blank_isSome (c : Char) (rest : List Char) : (blank (c :: rest)).isSome = isBlank c := by
  have ends : (lineEnding (c :: rest)).isSome = !isPlain c := lineEnding_isSome (c :: rest)
  rw [blank, first, List.isSome_findSome?, List.any_cons, List.any_cons, List.any_cons,
    literal_singleton_isSome, literal_singleton_isSome, ends, List.any_nil, Bool.or_false, isBlank,
    Bool.or_assoc]

theorem blank_runs : blank.Runs isBlank where
  stops {rest} missed := by
    cases rest with
    | nil => rfl
    | cons c rest =>
      have plain := blank_isSome c rest
      rw [missed, Option.isSome_none] at plain
      exact List.takeWhile_cons_of_neg (by rw [← plain]; exact Bool.false_ne_true)
  goesOn {rest text} taken := by
    obtain ⟨reader, among, taken⟩ := List.exists_of_findSome?_eq_some taken
    simp only [List.mem_cons, List.not_mem_nil, or_false] at among
    rcases among with rfl | rfl | rfl
    · obtain ⟨rfl, _⟩ := literal_eq_some.mp taken
      exact ⟨by simp, List.all_eq_true.mp rfl⟩
    · obtain ⟨rfl, _⟩ := literal_eq_some.mp taken
      exact ⟨by simp, List.all_eq_true.mp rfl⟩
    · obtain ⟨ending, _⟩ := lineEnding_eq_some taken
      simp only [List.mem_cons, List.not_mem_nil, or_false] at ending
      rcases ending with rfl | rfl | rfl <;> exact ⟨by simp, List.all_eq_true.mp rfl⟩

/-! ### Nodes -/

/-- The items of a document, in which the tag and the body have their texts. -/
inductive Block.ListedBy (block : Block) : Node → Prop
  | mk {span pushed first opened last tag body : Span} {opening ending closing : TerminalKind}
      {shown named spelled : String} (tagged : tag.text = String.ofList block.tag)
      (filled : body.text = String.ofList block.body) :
      ListedBy block (.seq span [
        some (.terminal opening first shown),
        some (.push pushed (some (.rule "tag" tag none))),
        some (.terminal ending opened named),
        some (.rule "body" body none),
        some (.terminal closing last spelled)])

/-- The node of a document. -/
def Block.ShownBy (block : Block) (node : Node) : Prop :=
  ∃ span items, block.ListedBy items ∧ node = .rule "heredoc" span (some items)

theorem Block.ShownBy.find_eq {block : Block} {node : Node} (shown : block.ShownBy node) :
    node.find "heredoc" = [node] := by
  obtain ⟨span, items, ⟨_, _⟩, rfl⟩ := shown
  simp [Node.find_of_isRule, Node.find_of_not_isRule, Node.isRule, Node.childNodes, Node.children]

theorem Block.ShownBy.contents_eq {block : Block} {node : Node} (shown : block.ShownBy node) :
    contents? node = some block.pair := by
  obtain ⟨span, items, ⟨tagged, filled⟩, rfl⟩ := shown
  simp [contents?, Node.find_of_isRule, Node.find_of_not_isRule, Node.isRule, Node.childNodes,
    Node.children, Node.text, Node.span, tagged, filled, Block.pair]

/-- A document is read or not, and if it is then a node shows it and the stack is empty again. -/
def Shown (here : Position) (outcome : Option Block) (shows : Block → Node → Prop)
    (result : Option Match) (after : Stack Span) : Prop :=
  match result with
  | none => outcome = none
  | some found => ∃ block node, outcome = some block ∧ here.Reads block.chars found.stop ∧
      found.node = some node ∧ shows block node ∧ after = {}

section Rules

variable {env : Env} {most : Nat} {atomic : Bool} {stack : Stack Span}

theorem newline_takes : Takes env 0 newline atomic stack lineEnding :=
  .of_gives fun here => Terminal.matchLineEnding_gives here Terminal.lineEndings

theorem blank_takes : Takes env 8 (.rule 5 "WHITESPACE" .silent whiteSpace) true stack blank :=
  have each : Takes env 6 whiteSpace true stack blank :=
    .choice (.cons (.literal " ") (.cons (.literal "\t") (.cons newline_takes .nil)))
  each.rule

variable (limited : env.repeatLimit = some most)

include limited

theorem tag_takes : Takes env ((most + 1) * 6) tag true stack (tagReader most) := by
  have character : Takes env 4 (.choice Expr.asciiAlphaUpper [Expr.literal "_"]) true stack
      (one isTagChar) := by
    rw [← first_tagChar]
    exact .choice (.cons (.charRange 'A' 'Z') (.cons (.literal "_") .nil))
  exact character.rep limited 1

theorem line_takes : Takes env ((most + 1) * 8 + 4) line true stack (lineReader most) := by
  have plain : Takes env 6 (.seq (.negative newline) [.terminal .any]) true stack
      (one isPlain) := by
    rw [← both_plain]
    exact .seq (newline_takes.negative rfl) .any
  exact (plain.rep limited 0).seq newline_takes

variable (rules : env.rules = grammar.table)

include rules

/-- A line of the body, where the tag is on top of the stack. -/
theorem bodyLine_takes {top : Span} {name : List Char} (holds : stack.peek? = some top)
    (named : top.text = String.ofList name) : Takes env ((most + 1) * 8 + 25) (.seq
      (.negative (.seq (.terminal .peek) [.choice newline [.terminal .endOfInput]]))
      [.ref "line"]) true stack (bodyLine most name) := by
  have peeks : Takes env 0 (.terminal .peek) true stack.snapshot (literal name) := by
    have same : top.text.toList = name := by rw [named, String.toList_ofList]
    exact same ▸ .peek holds
  have ends : Takes env 4 (.choice newline [.terminal .endOfInput]) true stack.snapshot
      (first [lineEnding, ended]) :=
    .choice (.cons newline_takes (.cons .endOfInput .nil))
  have known : env.rules.lookup "line" = some (.rule 4 "line" .silent line) := by
    rw [rules]
    rfl
  exact (((peeks.seq ends).negative rfl).seq (.ref known (line_takes limited).rule)).mono (by omega)

/-- The first tag, which goes onto the empty stack. -/
theorem opening_fares (here : Position) (whole : here.input = env.input) :
    Fares env ((most + 1) * 6 + 5) (.push (.ref "tag")) here true {} fun result after =>
      match result with
      | none => tagReader most here.rest = none
      | some item => ∃ text span tag top, tagReader most here.rest = some text ∧
          here.Reads text item.stop ∧ item.node = some (.push span (some (.rule "tag" tag none))) ∧
          tag.text = String.ofList text ∧ top.text = String.ofList text ∧
          after = { items := [top] } := by
  have known : env.rules.lookup "tag" = some (.rule 2 "tag" .atomic tag) := by
    rw [rules]
    rfl
  refine .push (.ref known ((tag_takes limited).atomicRule 2 "tag" here whole))
    (fun _ took => took.2) fun found after took => ?_
  obtain ⟨rfl, text, tag, same, reads, node, named⟩ := took
  refine ⟨reads.precedes, fun span covers =>
    ⟨text, span, tag, span, same, reads, ?_, named, ?_, rfl⟩⟩
  · rw [node]
  · rw [covers.text_eq, reads.segment_eq]

/-- How many moves a body takes at most. -/
def bodyCost (most : Nat) : Nat := (most + 1) * ((most + 1) * 8 + 27) + 3

/-- The body of a document, whose tag is on top of the stack. -/
theorem body_fares {top : Span} {name : List Char} (holds : stack.peek? = some top)
    (named : top.text = String.ofList name) (here : Position) (whole : here.input = env.input) :
    Fares env (bodyCost most) (.ref "body") here true stack
      fun result after => after = stack ∧ match result with
        | none => many (bodyLine most name) most here.rest = none
        | some item => ∃ lines body, many (bodyLine most name) most here.rest = some lines ∧
            here.Reads lines.flatten item.stop ∧ item.node = some (.rule "body" body none) ∧
            body.text = String.ofList lines.flatten := by
  have known : env.rules.lookup "body" = some (.rule 3 "body" .atomic body) := by
    rw [rules]
    rfl
  have takes : Takes env ((most + 1) * ((most + 1) * 8 + 27)) body true stack _ :=
    (bodyLine_takes limited rules holds named).rep limited 0
  refine (Fares.ref known (takes.atomicRule 3 "body" here whole)).mono (Nat.le_refl _)
    fun result after took => ?_
  obtain ⟨rfl, took⟩ := took
  refine ⟨rfl, ?_⟩
  rw [repeated_zero] at took
  cases result with
  | none => exact Option.map_eq_none_iff.mp took
  | some item =>
    obtain ⟨text, span, same, reads, node, filled⟩ := took
    obtain ⟨lines, read, rfl⟩ := Option.map_eq_some_iff.mp same
    exact ⟨lines, span, read, reads, node, filled⟩

/-- How many moves a document takes at most. -/
def blockCost (most : Nat) : Nat := bodyCost most + (most + 1) * 6 + 15

/-- The items of a document: the first tag goes onto the stack, and the last one takes it off. -/
theorem items_fare (here : Position) (whole : here.input = env.input) :
    Fares env (blockCost most) heredoc here true {}
      (Shown here (block? most here.rest) Block.ListedBy) := by
  have cost_eq : blockCost most =
      0 + ((most + 1) * 6 + 5 + (0 + (bodyCost most + (0 + 2) + 2) + 2) + 2) + 2 := by
    rw [blockCost]
    omega
  rw [cost_eq]
  refine Leads.item (.terminal (Terminal.literal_gives here "<<")) (fun after took => ?_)
    fun opening after took => ?_
  · have missed : literal ['<', '<'] here.rest = none := took.2.of_none
    simp only [Shown, block?, missed, Option.bind_none]
  obtain ⟨rfl, leaf⟩ := took
  obtain ⟨_, _, _, _, opens, first, openingNode⟩ := leaf.of_some
  obtain ⟨rfl, _⟩ := literal_eq_some.mp opens
  replace opens : literal ['<', '<'] here.rest = some ['<', '<'] := opens
  replace first : here.Reads ['<', '<'] opening.stop := first
  refine Leads.item (opening_fares limited rules opening.stop (first.input_eq.trans whole))
    (fun after missed => ?_) fun tagged after took => ?_
  · have missed : tagReader most opening.stop.rest = none := missed
    simp only [Shown, block?, opens, Option.bind_some, first.drop_eq, missed, Option.bind_none]
  obtain ⟨name, _, _, top, named, second, tagNode, tagText, topText, rfl⟩ := took
  have before := first.trans second
  -- From here on the tag is on the stack, until the last item takes it off.
  refine Leads.item (.terminal (Terminal.matchLineEnding_gives tagged.stop Terminal.lineEndings))
    (fun after took => ?_) fun ended after took => ?_
  · have missed : lineEnding tagged.stop.rest = none := took.2.of_none
    simp only [Shown, block?, opens, Option.bind_some, first.drop_eq, named, second.drop_eq, missed,
      Option.bind_none]
  obtain ⟨rfl, leaf⟩ := took
  obtain ⟨opened, _, _, _, ends, third, endingNode⟩ := leaf.of_some
  replace ends : lineEnding tagged.stop.rest = some opened := ends
  have before := before.trans third
  refine Leads.item (body_fares limited rules rfl topText ended.stop (before.input_eq.trans whole))
    (fun after took => ?_) fun filled after took => ?_
  · simp only [Shown, block?, opens, Option.bind_some, first.drop_eq, named, second.drop_eq, ends,
      third.drop_eq, took.2, Option.bind_none]
  obtain ⟨rfl, lines, _, read, fourth, bodyNode, bodyText⟩ := took
  have before := before.trans fourth
  refine Leads.lastItem (.terminal (Terminal.pop_gives filled.stop rfl))
    (fun after took => ?_) fun closed after took => ?_
  · have missed : literal name filled.stop.rest = none := by
      have leaf := took.1.of_none
      rwa [topText, String.toList_ofList] at leaf
    simp only [Shown, block?, opens, Option.bind_some, first.drop_eq, named, second.drop_eq, ends,
      third.drop_eq, read, fourth.drop_eq, missed, Option.map_none]
  obtain ⟨leaf, empties⟩ := took
  obtain rfl := empties rfl
  obtain ⟨text, _, _, _, closes, last, closingNode⟩ := leaf.of_some
  rw [topText, String.toList_ofList] at closes
  obtain rfl : name = text := (literal_eq_some.mp closes).1.symm
  have all := before.trans last
  refine ⟨all.precedes, fun span _ => ⟨⟨name, opened, lines⟩, _, ?_, ?_, rfl, ?_, rfl⟩⟩
  · simp only [block?, opens, Option.bind_some, first.drop_eq, named, second.drop_eq, ends,
      third.drop_eq, read, fourth.drop_eq, closes, Option.map_some]
  · simpa [Block.chars, Block.body] using all
  · rw [openingNode, tagNode, endingNode, bodyNode, closingNode]
    exact .mk tagText bodyText

theorem heredoc_fares (here : Position) (whole : here.input = env.input) :
    Fares env (blockCost most + 3) (.ref "heredoc") here false {}
      (Shown here (block? most here.rest) Block.ShownBy) := by
  have known : env.rules.lookup "heredoc" =
      some (.rule 1 "heredoc" .compoundAtomic heredoc) := by
    rw [rules]
    rfl
  refine .ref known (.rule (items_fare limited rules here whole) (fun _ missed => missed) nofun
    fun _ found after shown => ?_)
  obtain ⟨block, items, read, reads, node, lists, rfl⟩ := shown
  refine ⟨reads.precedes, fun span _ => ⟨block, _, read, reads, rfl, ⟨span, items, lists, ?_⟩, rfl⟩⟩
  rw [if_neg nofun, node]

/-! ### Documents in a row -/

/-- How many moves the documents of a text of so many characters take at most. -/
def documentsCost (most size allowed : Nat) : Nat :=
  (allowed + 1) * (blockCost most + (size + 2) * 10 + 7)

variable (ignored : env.skippers = [.rule 5 "WHITESPACE" .silent whiteSpace])

include ignored

omit limited rules in
/-- Blanks are skipped between documents. -/
theorem gap_fares (stack : Stack Span) (here : Position) (whole : here.input = env.input) :
    Fares env ((env.input.size + 2) * 10) .ignored here false stack
      (Skipped here isBlank stack) := by
  refine (ignored_skips ignored blank_takes blank_runs whole).mono ?_ fun _ _ skipped => skipped
  have short : here.rest.length ≤ env.input.size := by
    rw [here.rest_length, whole]
    exact Nat.sub_le _ _
  exact Nat.mul_le_mul_right _ (by omega)

/-- The nodes show the documents one by one. -/
def Listed (blocks : List Block) (nodes : List (Option Node)) : Prop :=
  List.Forall₂ (fun block node => ∃ shown, node = some shown ∧ block.ShownBy shown) blocks nodes

/-- Documents are read or not, and if they are then nodes show them, and the rest is left. -/
def Gathered (start : Position) (outcome : Option (List Block × List Char))
    (result : Option Match) : Prop :=
  match result with
  | none => outcome = none
  | some found => ∃ blocks span nodes, outcome = some (blocks, found.stop.rest) ∧
      start.Precedes found.stop ∧ found.node = some (.rep span nodes) ∧ Listed blocks nodes

/-- The documents that follow others. -/
def following (earlier : List Block) (outcome : Option (List Block × List Char)) :
    Option (List Block × List Char) :=
  outcome.map fun (blocks, rest) => (earlier ++ blocks, rest)

/-- After some documents, others are tried. -/
theorem document_leads {start here : Position} (whole : here.input = env.input)
    (ordered : start.Precedes here) {found : Array (Option Node)} {earlier : List Block}
    (listed : Listed earlier found.toList) {allowed : Nat} (left : found.size + allowed = most) :
    Leads env (documentsCost most env.input.size allowed)
      (pure (.call (.repItem ⟨.ref "heredoc", 0, none, false, start⟩ here found) (.ref "heredoc")
        here false)) {}
      fun result _ => Gathered start (following earlier (blocks? most allowed here.rest))
        result := by
  -- If no further document is read, those that were found are all.
  have ends {here : Position} {found : Array (Option Node)} {earlier : List Block}
      {after : Stack Span} (ordered : start.Precedes here) (listed : Listed earlier found.toList) :
      (Clause.rep 0 start here found).Gives after
        fun result _ => Gathered start (following earlier (some ([], here.rest))) result := by
    refine Leads.rep_gives ordered (fun few => absurd few (Nat.not_lt_zero _)) fun _ span _ => ?_
    exact ⟨earlier, span, found.toList, by simp [following], ordered, rfl, listed⟩
  induction allowed generalizing here found earlier with
  | zero =>
    have cost_eq : documentsCost most env.input.size 0 =
        blockCost most + 3 + ((env.input.size + 2) * 10 + 2) + 2 := by
      rw [documentsCost]
      omega
    rw [cost_eq]
    refine Leads.attempt (heredoc_fares limited rules here whole) (fun after missed => ?_)
      (fun _ item after shown => ?_) fun within => ?_
    · have missed : block? most here.rest = none := missed
      rw [blocks?, missed]
      exact ends ordered listed
    · obtain ⟨block, _, read, _⟩ := shown
      rw [blocks?, read]
      rfl
    · exact absurd within (by simp [Clause.beyondLimit, limited, ← left])
  | succ allowed ih =>
    have cost_eq : documentsCost most env.input.size (allowed + 1) = blockCost most + 3 +
        ((env.input.size + 2) * 10 + documentsCost most env.input.size allowed + 2) + 2 := by
      rw [documentsCost, documentsCost, Nat.succ_mul]
      omega
    rw [cost_eq]
    refine Leads.attempt (heredoc_fares limited rules here whole) (fun after missed => ?_)
      (fun beyond => ?_) fun _ item after shown => ?_
    · have missed : block? most here.rest = none := missed
      rw [blocks?, missed]
      exact ends ordered listed
    · exact absurd (by simp [Clause.beyondLimit, limited]; omega) beyond
    · obtain ⟨block, shown, read, reads, node, shows, rfl⟩ := shown
      have middle := reads.input_eq.trans whole
      refine Leads.round_gap rfl (by simp) (gap_fares ignored {} item.stop middle)
        fun result after skipped => ?_
      obtain ⟨rfl, stop, rfl, further⟩ := skipped
      have onward : following earlier (blocks? most (allowed + 1) here.rest) =
          following (earlier ++ [block]) (blocks? most allowed stop.rest) := by
        simp only [blocks?, read, reads.drop_eq, rest_of_reads_takeWhile further]
        cases blocks? most allowed (item.stop.rest.dropWhile isBlank) with
        | none => rfl
        | some outcome => simp [following]
      have ordered := ordered.trans (reads.precedes.trans further.precedes)
      have listed : Listed (earlier ++ [block]) (found.push item.node).toList := by
        rw [Array.toList_push]
        exact List.rel_append listed (.cons ⟨shown, node, shows⟩ .nil)
      rw [onward]
      exact ih (further.input_eq.trans middle) ordered listed (by rw [Array.size_push]; omega)

/-- The documents of a text, or of the rest of one. -/
theorem document_fares (here : Position) (whole : here.input = env.input) :
    Fares env (documentsCost most env.input.size most + 2)
      (.rule 0 "document" .normal document) here false {} fun result _ =>
        match result with
        | none => blocks? most most here.rest = none
        | some found => ∃ blocks span inner nodes,
            blocks? most most here.rest = some (blocks, found.stop.rest) ∧
              found.stop.input = env.input ∧
              found.node = some (.rule "document" span (some (.rep inner nodes))) ∧
              Listed blocks nodes := by
  have unchanged (outcome : Option (List Block × List Char)) : following [] outcome = outcome := by
    cases outcome <;> rfl
  have leads := document_leads limited rules ignored whole (.refl here)
    (show Listed [] (#[] : Array (Option Node)).toList from .nil)
    (show (#[] : Array (Option Node)).size + most = most from Nat.zero_add most)
  rw [unchanged] at leads
  refine Fares.rule (Leads.round rfl rfl leads) (fun _ missed => missed) nofun
    fun _ found after gathered => ?_
  obtain ⟨blocks, inner, nodes, read, ordered, node, listed⟩ := gathered
  refine ⟨ordered, fun span _ =>
    ⟨blocks, span, inner, nodes, read, ordered.input_eq.trans whole, ?_, listed⟩⟩
  rw [node]
  rfl

end Rules

/-! ### Calls -/

section Calls

/-- The environment in which a call parses a text. -/
def textEnv (text : String) : Env where
  input := .ofString 0 text
  rules := grammar.table
  whitespace := some (.rule 5 "WHITESPACE" .silent whiteSpace)
  repeatLimit := some 1024

/-- The rule that a call parses. -/
def root : Expr := .rule 0 "document" .normal document

theorem parse_eq (text : String) : grammar.parse [] [] .default { text := .text text } =
    .ok (grammar.noteFailure (.expr root) false
      (.ofAction (parse (textEnv text) ampleFuel root) [])) := rfl

/-- How many moves the parse of a text of so many characters takes at most in one go. -/
def parseCost (size : Nat) : Nat := documentsCost 1024 size 1024 + 4

/-- With enough fuel a text is parsed as it is read. -/
theorem parse_reads (text : String) {fuel : Nat}
    (enough : parseCost (textEnv text).input.size ≤ fuel) :
    match read? 1024 text.toList with
    | none => ∃ report after, parse (textEnv text) fuel root {} = .done (.error report) after
    | some blocks => ∃ stop span inner nodes after,
        parse (textEnv text) fuel root {} =
          .done (.ok ⟨stop, some (.rule "document" span (some (.rep inner nodes)))⟩) after ∧
        Listed blocks nodes := by
  have limited : (textEnv text).repeatLimit = some 1024 := rfl
  have rules : (textEnv text).rules = grammar.table := rfl
  have ignored : (textEnv text).skippers = [.rule 5 "WHITESPACE" .silent whiteSpace] := rfl
  have begun : (Position.start (textEnv text).input).rest = text.toList := rfl
  have enough : documentsCost 1024 (textEnv text).input.size 1024 + 4 ≤ fuel := enough
  obtain ⟨result, middle, gathered, ran⟩ := Fares.run_eq_done
    (document_fares limited rules ignored (.start (textEnv text).input) rfl)
    (show ({} : State).stack = {} from rfl) enough
  rw [begun] at gathered
  cases result with
  | none =>
    have missed : blocks? 1024 1024 text.toList = none := gathered
    obtain ⟨trace, reported⟩ := reportFailure_eq (textEnv text) middle
    have rejected : parsePartial (textEnv text) fuel root {} = .done (.error _) _ :=
      (Action.bind_of_done ran).trans reported
    rw [read?, missed, Option.bind_none]
    exact ⟨_, _, Action.bind_of_done rejected⟩
  | some found =>
    obtain ⟨blocks, span, inner, nodes, read, whole, node, listed⟩ := gathered
    have accepted : parsePartial (textEnv text) fuel root {} = .done (.ok found) middle :=
      Action.bind_of_done ran
    -- Behind the documents, blanks are skipped, and then the text has to be at its end.
    have skippable : ((textEnv text).input.size + 2) * 10 + 2 ≤ fuel := by
      unfold documentsCost at enough
      omega
    obtain ⟨_, later, ⟨_, stop, rfl, reads⟩, skipped⟩ := Fares.run_eq_done
      (gap_fares ignored middle.stack found.stop whole) rfl skippable
    have rested : matchRest (textEnv text) fuel root found.stop middle = .done stop later :=
      (matchRest_eq_done rfl).mpr ⟨_, skipped, rfl⟩
    obtain ⟨last, after, took, closed⟩ := Fares.run_eq_done
      (Takes.endOfInput stop (reads.input_eq.trans whole)) rfl (show 0 + 2 ≤ fuel by omega)
    have left : (read? 1024 text.toList) = if stop.rest.isEmpty then some blocks else none := by
      rw [read?, read, Option.bind_some, rest_of_reads_takeWhile reads]
    have parsed : parse (textEnv text) fuel root {} = _ :=
      (Action.bind_of_done accepted).trans
        ((Action.bind_of_done rested).trans (Action.bind_of_done closed))
    rw [left, parsed]
    cases ends : stop.rest.isEmpty with
    | false =>
      have missed : Reader.ended stop.rest = none := by rw [Reader.ended, ends]; rfl
      rw [missed] at took
      cases last with
      | none =>
        obtain ⟨trace, reported⟩ := reportFailure_eq (textEnv text) after
        exact ⟨_, _, reported⟩
      | some last => cases took.2
    | true =>
      have taken : Reader.ended stop.rest = some [] := by rw [Reader.ended, ends]; rfl
      rw [taken] at took
      cases last with
      | none => cases took.2
      | some last =>
        rw [if_pos rfl]
        exact ⟨stop, span, inner, nodes, after, by rw [← node]; rfl, listed⟩

/-- What a call makes of the tree of a match. -/
def gathered (found : Match) : List (String × String) :=
  (match found.node with
    | some node => node.find "heredoc"
    | none => []).filterMap contents?

theorem heredocs_eq (text : String) : heredocs text =
    (Reply.ofAction (parse (textEnv text) ampleFuel root) []).answer.map gathered := by
  have named : (Operand.expr root).name? = some "document" := rfl
  rw [heredocs, heredocsIn, parse_eq, ← Grammar.noteFailure_answer_of_named grammar named false]
  rfl

/-- The nodes of documents are found in the tree, and so are their tags and bodies. -/
theorem gathered_eq {blocks : List Block} {nodes : List (Option Node)}
    (listed : Listed blocks nodes) (stop : Position) (span inner : Span) :
    gathered ⟨stop, some (.rule "document" span (some (.rep inner nodes)))⟩ =
      blocks.map Block.pair := by
  have search : (Node.rule "document" span (some (.rep inner nodes))).find "heredoc" =
      (nodes.filterMap id).flatMap (·.find "heredoc") := by
    simp [Node.find_of_not_isRule, Node.isRule, Node.childNodes, Node.children]
  rw [gathered]
  dsimp only
  rw [search]
  clear search
  induction listed with
  | nil => rfl
  | @cons block _ blocks nodes shows _ ih =>
    obtain ⟨shown, rfl, shows⟩ := shows
    have front : (some shown :: nodes).filterMap id = shown :: nodes.filterMap id := rfl
    rw [front, List.flatMap_cons, shows.find_eq, List.singleton_append,
      List.filterMap_cons_some shows.contents_eq, ih, List.map_cons]

/-- The answer of a call with a text that is read so, or not at all. -/
def Answers (outcome : Option (List Block)) (answer : Except CallError Match) : Prop :=
  match outcome with
  | none => ∃ report, answer = .error (.rejected report)
  | some blocks => ∃ found, answer = .ok found ∧ gathered found = blocks.map Block.pair

theorem parse_answers (text : String) {fuel : Nat}
    (enough : parseCost (textEnv text).input.size ≤ fuel) : Answers (read? 1024 text.toList)
      (Reply.ofAction (parse (textEnv text) fuel root) []).answer := by
  have reads := parse_reads text enough
  rw [Reply.ofAction]
  cases read : read? 1024 text.toList with
  | none =>
    rw [read] at reads
    obtain ⟨report, after, ended⟩ := reads
    exact ⟨report, by rw [ended]⟩
  | some blocks =>
    rw [read] at reads
    obtain ⟨stop, span, inner, nodes, after, ended, listed⟩ := reads
    exact ⟨_, by rw [ended], gathered_eq listed stop span inner⟩

/-! ### Main result -/

/-- What a call answers is what is read of its text. -/
theorem read_of_heredocs {text : String} {pairs : List (String × String)}
    (answered : heredocs text = .ok pairs) :
    ∃ blocks, read? 1024 text.toList = some blocks ∧ pairs = blocks.map Block.pair := by
  rw [heredocs_eq] at answered
  have enough := exhausted_or_of_enough (Answers (read? 1024 text.toList))
    ⟨_, fun fuel => parse_answers text⟩ ampleFuel
  generalize (Reply.ofAction (parse (textEnv text) ampleFuel root) []).answer = answer at *
  rcases enough with rfl | answers
  · cases answered
  · cases read : read? 1024 text.toList with
    | none =>
      rw [read] at answers
      obtain ⟨report, rfl⟩ := answers
      cases answered
    | some blocks =>
      rw [read] at answers
      obtain ⟨found, rfl, same⟩ := answers
      cases answered
      exact ⟨blocks, rfl, same⟩

/-- A text that is not too long is answered as it is read. -/
theorem heredocs_of_read {text : String} {blocks : List Block}
    (read : read? 1024 text.toList = some blocks)
    (short : parseCost text.toList.length ≤ ampleFuel) :
    heredocs text = .ok (blocks.map Block.pair) := by
  have answers := parse_answers text short
  rw [read] at answers
  obtain ⟨found, answered, same⟩ := answers
  rw [heredocs_eq, answered, ← same]
  rfl

end Calls

end Peg.Heredoc
