import Peg.Json.Escape
import Peg.Json.Number
import Peg.Json.Rules
import Peg.Node.Walk

/-!
The value of a JSON text. The tree of a match is read from its rules: the nearest matches of the
rules in question below a node are its parts, whatever stands around them. Unlike matching, reading
a tree calls itself for the parts of a node, and the calls that may stand inside each other are
limited.
-/

namespace Peg.Json

/-- Why a tree has no value. -/
inductive DecodeError where
  /-- A node of this class stands for no value. -/
  | unexpectedNode (className : String)
  /-- A node has no child from which to read the value. -/
  | absentNode
  /-- The body of a string is wrong. -/
  | escape (error : EscapeError)
  /-- Too many calls would stand inside each other. -/
  | tooDeep

/-- The wording of an error. -/
def DecodeError.message : DecodeError → String
  | unexpectedNode className => "Unexpected node: " ++ className
  | absentNode => "Unexpected node: None"
  | escape error => error.message
  | tooDeep => "maximum recursion depth exceeded"

/-- The string that the match of a string stands for. -/
def decodeString (node : Node) : Except DecodeError (List Nat) :=
  (unescape node.text).mapError .escape

/-- The value that a node stands for, where `room` calls may stand inside each other. An array and
an object take one call more, in which they go through their parts. -/
def decode : (room : Nat) → Node → Except DecodeError Value
  | 0, _ => .error .tooDeep
  | room + 1, node =>
    match node with
    | .choice _ _ (some child) => decode room child
    | .choice _ _ none => .error .absentNode
    | .rule rule _ child =>
      if rule = "document" then
        match node.rulesWithin ["value"] with
        | value :: _ => decode room value
        | [] => .error (.unexpectedNode node.className)
      else if rule = "object" then
        match room with
        | 0 => .error .tooDeep
        | room + 1 => do
          let members ← (node.rulesWithin ["pair"]).mapM fun pair =>
            match pair.rulesWithin ["string", "value"] with
            | [key, value] => do return (← decodeString key, ← decode room value)
            | _ => .error (.unexpectedNode pair.className)
          return .object (members.foldl (fun all member => setMember all member.1 member.2) [])
      else if rule = "array" then
        match room with
        | 0 => .error .tooDeep
        | room + 1 => .array <$> (node.rulesWithin ["value"]).mapM (decode room)
      else if rule = "string" then .str <$> decodeString node
      else if rule = "number" then .ok (numberValue node.text)
      else if rule = "true" then .ok (.bool true)
      else if rule = "false" then .ok (.bool false)
      else if rule = "null" then .ok .null
      else
        match child with
        | some child => decode room child
        | none => .error .absentNode
    | other => .error (.unexpectedNode other.className)

/-- How many calls may stand inside each other where the reading of a tree begins: of the thousand
that are allowed altogether, a few are under way by then. -/
def ampleRoom : Nat := 990

/-- Why a text has no value. -/
inductive LoadError where
  /-- The grammar has no such rule. -/
  | grammar (error : GrammarError)
  /-- The text does not match. -/
  | call (error : CallError)
  /-- The match stands for no value. -/
  | decode (error : DecodeError)

/-- The value of what matches from some start, where anything but a text is refused. -/
def loadFrom (start : Start) (text : Datum) (fuel : Nat := ampleFuel) (room : Nat := ampleRoom) :
    Except LoadError Value := do
  let reply ← (grammar.parse [] [] start { text } fuel).mapError .grammar
  let found ← reply.answer.mapError .call
  match found.node with
  | some node => (decode room node).mapError .decode
  | none => .error (.decode .absentNode)

/-- The value of a JSON text. -/
def load (text : String) (fuel : Nat := ampleFuel) (room : Nat := ampleRoom) :
    Except LoadError Value :=
  loadFrom .default (.text text) fuel room

end Peg.Json
