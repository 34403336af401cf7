import Peg.Grammar

/-!
Catalogues of grammars. A rule belongs to at most one grammar of a catalogue, the one that it was
added to. A grammar that could not be completed stays in the catalogue with the rules it was given
before.
-/

namespace Peg

/-- Several grammars, and which of them each rule belongs to. -/
structure Catalogue where
  /-- The grammars, in the order in which they were begun. -/
  grammars : Array Grammar := #[]
  /-- For the tag of each rule that belongs to a grammar, the number of that grammar. -/
  owners : List (Nat × Nat) := []

namespace Catalogue

/-- The number of the grammar that a rule belongs to. -/
def owner? (catalogue : Catalogue) (rule : Rule) : Option Nat := catalogue.owners.lookup rule.tag

/-- The grammar of a number. A number that was never given out has an empty one. -/
def grammar (catalogue : Catalogue) (number : Nat) : Grammar :=
  (catalogue.grammars[number]?).getD {}

/-- The name of the grammar that a rule belongs to. -/
def ownerName? (catalogue : Catalogue) (rule : Rule) : Option String :=
  (catalogue.owner? rule).map fun number => (catalogue.grammar number).name

/-- Changes the grammar of a number. -/
def put (catalogue : Catalogue) (number : Nat) (grammar : Grammar) : Catalogue :=
  { catalogue with grammars := catalogue.grammars.setIfInBounds number grammar }

/-- Puts a rule into a grammar, to which it then belongs. -/
def insertRule (catalogue : Catalogue) (number : Nat) (rule : Rule) : Catalogue :=
  let changed := catalogue.put number ((catalogue.grammar number).insert rule)
  { changed with owners := (rule.tag, number) :: catalogue.owners }

/-- Adds a rule to a grammar. A rule of a name that the grammar has, or one that belongs to another
grammar, is refused. -/
def addRule (catalogue : Catalogue) (number : Nat) (rule : Rule) :
    Except GrammarError Catalogue :=
  if (catalogue.grammar number).contains rule.name then .error (.duplicate rule.name)
  else
    match catalogue.owner? rule with
    | none => .ok (catalogue.insertRule number rule)
    | some owner =>
      if owner = number then .ok (catalogue.insertRule number rule)
      else .error (.taken rule.name (catalogue.grammar owner).name)

/-- The rule that an operand is. -/
def ruleOf (operand : Operand) : Except GrammarError Rule :=
  match operand.rule? with
  | some rule => .ok rule
  | none => .error (.notRule operand.typeName)

/-- Adds a rule to a grammar and answers it. -/
def add (catalogue : Catalogue) (number : Nat) (operand : Operand) :
    Except GrammarError (Rule × Catalogue) := do
  let rule ← ruleOf operand
  return (rule, ← catalogue.addRule number rule)

/-- Adds rules to a grammar up to the first that cannot be added. -/
def addAll (catalogue : Catalogue) (number : Nat) :
    List Operand → Except GrammarError Unit × Catalogue
  | [] => (.ok (), catalogue)
  | operand :: rest =>
    match catalogue.add number operand with
    | .ok (_, catalogue) => catalogue.addAll number rest
    | .error error => (.error error, catalogue)

/-- Chooses the start of a grammar, if one is asked for. -/
def chooseStart (catalogue : Catalogue) (number : Nat) (start : Start) :
    Except GrammarError Catalogue := do
  let grammar := catalogue.grammar number
  match start with
  | .default => return catalogue
  | .named name =>
    let rule ← grammar.get name
    return catalogue.put number { grammar with start := some (.expr rule.toExpr) }
  | .given operand => return catalogue.put number { grammar with start := some operand }

/-- Begins a grammar of some rules, and answers its number unless it cannot be completed. -/
def build (catalogue : Catalogue) (name : String) (repeatLimit : Option Int)
    (rules : List Operand) (start : Start) : Except GrammarError Nat × Catalogue :=
  let number := catalogue.grammars.size
  let begun := { catalogue with grammars := catalogue.grammars.push { name, repeatLimit } }
  match begun.addAll number rules with
  | (.error error, catalogue) => (.error error, catalogue)
  | (.ok (), catalogue) =>
    match catalogue.chooseStart number start with
    | .ok catalogue => (.ok number, catalogue)
    | .error error => (.error error, catalogue)

/-- Calls a parse of an operand by itself. A rule that belongs to a grammar is parsed as a part of
that grammar, and anything else without a table of rules. -/
def parse (catalogue : Catalogue) (definitions : Definitions) (forced : List LazyCell)
    (operand : Operand) (call : Call) (fuel : Nat := ampleFuel) : Except GrammarError Reply :=
  match operand.rule?.bind catalogue.owner? with
  | none => .ok (call.parseAlone [] definitions forced operand fuel)
  | some number => (catalogue.grammar number).parse definitions forced (.given operand) call fuel

end Catalogue

end Peg
