import Peg.Engine.Parse

/-!
Grammars: tables of named rules. References are looked up in the table. The rules named
`WHITESPACE` and `COMMENT` say what is ignored. A grammar is parsed from its start, or from any of
its rules. The start is the first rule that does not say what is ignored, unless another one is
chosen; any operand may be chosen, such as a reference or a rule of no grammar.
-/

namespace Peg

/-- A table of named rules. -/
structure Grammar where
  /-- The name of the grammar. -/
  name : String := "grammar"
  /-- The limit of repetitions, if there is one. -/
  repeatLimit : Option Int := some defaultRepeatLimit
  /-- The rules, in the order in which they were added. -/
  rules : List Rule := []
  /-- What a parse matches unless it names a rule. -/
  start : Option Operand := none

/-- What cannot be done with a grammar. -/
inductive GrammarError where
  /-- Something that is no rule was given. -/
  | notRule (typeName : String)
  /-- There is a rule of this name already. -/
  | duplicate (rule : String)
  /-- The rule belongs to another grammar. -/
  | taken (rule owner : String)
  /-- The grammar has no rule of this name. -/
  | unknown (grammar rule : String)
  /-- The grammar has no start rule. -/
  | noStart (grammar : String)
  /-- The rule is not one of the grammar. -/
  | foreign (rule grammar : String)
  /-- Something of a type that lacks a property of rules was given for a rule. -/
  | lacks (typeName property : String)

/-- The wording of an error. -/
def GrammarError.message : GrammarError → String
  | notRule typeName => s!"Expected Rule. Received: <class '{typeName}'>."
  | duplicate rule => "Duplicate rule: " ++ Text.literalForm rule
  | taken rule owner => s!"Rule {Text.literalForm rule} already belongs to {owner}"
  | unknown grammar rule => s!"{grammar} has no rule named {Text.literalForm rule}"
  | noStart grammar => s!"{grammar} has no rules."
  | foreign rule grammar => s!"Rule {Text.literalForm rule} is not part of {grammar}"
  | lacks typeName property => lacking typeName property

/-- The rule that an operand is. Of the properties of rules, anything else lacks the name, and a
reference, which has one, the kind. -/
def Operand.toRule (operand : Operand) : Except GrammarError Rule :=
  match operand.rule? with
  | some rule => .ok rule
  | none =>
    .error (.lacks operand.shortTypeName (if operand.name?.isSome then "kind" else "name"))

/-- Where a parse is to start. -/
inductive Start where
  /-- At the start of the grammar. -/
  | default
  /-- At the rule of this name. -/
  | named (name : String)
  /-- At this operand. -/
  | given (operand : Operand)

/-- The place to start that an operand tells: the absent value stands for the start of the grammar,
and a text for the rule of that name. -/
def Start.ofOperand : Operand → Start
  | .datum .null => .default
  | .datum (.text name) => .named name
  | operand => .given operand

namespace Grammar

/-- The rule of a name. -/
def find? (grammar : Grammar) (name : String) : Option Rule :=
  grammar.rules.find? fun rule => rule.name == name

/-- Whether there is a rule of a name. -/
def contains (grammar : Grammar) (name : String) : Bool := (grammar.find? name).isSome

/-- The rule of a name, which the grammar is to have. -/
def get (grammar : Grammar) (name : String) : Except GrammarError Rule :=
  match grammar.find? name with
  | some rule => .ok rule
  | none => .error (.unknown grammar.name name)

/-- Whether a rule is one of the grammar. -/
def has (grammar : Grammar) (rule : Rule) : Bool :=
  grammar.rules.any fun other => other.tag == rule.tag

/-- The names of the rules, in their order. -/
def ruleNames (grammar : Grammar) : List String := grammar.rules.map Rule.name

/-- The rules as a table for references. -/
def table (grammar : Grammar) : List (String × Expr) :=
  grammar.rules.map fun rule => (rule.name, rule.toExpr)

/-- Whether a rule of this name says what is ignored. -/
def isSkipperName (name : String) : Bool := name == "WHITESPACE" || name == "COMMENT"

/-- Adds a rule at the end of the table. It becomes the start if there is none and it does not say
what is ignored. -/
def insert (grammar : Grammar) (rule : Rule) : Grammar :=
  { grammar with
    rules := grammar.rules ++ [rule]
    start := if grammar.start.isNone && !isSkipperName rule.name then some (.expr rule.toExpr)
      else grammar.start }

/-- The grammar of some rules with distinct names. -/
def ofRules (rules : List Rule) : Grammar := rules.foldl insert {}

/-- A tag above those of all rules in the table, so that a rule with this tag is another one. -/
def freshTag (grammar : Grammar) : Nat :=
  grammar.rules.foldl (fun bound rule => max bound (rule.tag + 1)) 0

/-- The name of the start, if there is one. -/
def startName (grammar : Grammar) : Except GrammarError (Option String) :=
  match grammar.start with
  | none => .ok none
  | some operand =>
    match operand.name? with
    | some name => .ok (some name)
    | none => .error (.lacks operand.shortTypeName "name")

/-- The form in which a message shows a grammar. -/
def form (grammar : Grammar) : String :=
  let names := Text.listForm (grammar.ruleNames.map Text.literalForm)
  s!"Grammar({Text.literalForm grammar.name}, rules={names})"

/-- What a parse is to match. The start of the grammar is taken as it is; any other operand has to
be one of the rules. -/
def origin (grammar : Grammar) : Start → Except GrammarError Operand
  | .default =>
    match grammar.start with
    | some operand => .ok operand
    | none => .error (.noStart grammar.name)
  | .named name => do
    let rule ← grammar.get name
    return .expr rule.toExpr
  | .given operand =>
    match operand.rule? with
    | none => .error (.lacks operand.shortTypeName "grammar")
    | some rule =>
      if grammar.has rule then .ok operand else .error (.foreign rule.name grammar.name)

/-- The settings of a call, filled up with those of the grammar. -/
def complete (grammar : Grammar) (settings : Settings) : Settings :=
  let skipper (name : String) : Option Operand :=
    (grammar.find? name).map fun rule => .expr rule.toExpr
  { settings with
    repeatLimit := settings.repeatLimit <|> some grammar.repeatLimit
    whitespace := settings.whitespace <|> some (skipper "WHITESPACE")
    comment := settings.comment <|> some (skipper "COMMENT") }

/-- Tells of a parse that failed by the name of what was to be matched, which has to have one. -/
def noteFailure (grammar : Grammar) (origin : Operand) (tracing : Bool) (reply : Reply) : Reply :=
  match reply.answer with
  | .error (.rejected report) =>
    match origin.name? with
    | none => { reply with answer := .error (.lacks origin.shortTypeName "name") }
    | some name =>
      let event := .ruleFailed grammar.name name report.line report.column
      if tracing then { reply with trace := reply.trace ++ [event] } else reply
  | _ => reply

/-- Calls a parse of the grammar. -/
def parse (grammar : Grammar) (definitions : Definitions) (forced : List LazyCell) (start : Start)
    (call : Call) (fuel : Nat := ampleFuel) : Except GrammarError Reply := do
  let origin ← grammar.origin start
  let call := { call with settings := grammar.complete call.settings }
  let reply := call.parse grammar.table definitions forced origin fuel
  return grammar.noteFailure origin call.settings.tracing reply

end Grammar

end Peg
