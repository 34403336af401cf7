import Peg.Expr.Ascii
import Peg.Grammar
import Peg.Node.Walk

/-!
Documents that stand between tags. A document starts with two less-than signs and a tag, and ends
at a line that holds the tag only. The tag is put on the stack, so that the body can tell its end.
-/

namespace Peg.Heredoc

open Peg.Expr (literal asciiAlphaUpper repOnce)

/-- A line ending. -/
def newline : Expr := .terminal .newline

/-- Any number of documents. -/
def document : Expr := .rep (.ref "heredoc") 0 none

/-- One document, from its first tag to its last. -/
def heredoc : Expr :=
  .seq (literal "<<") [.push (.ref "tag"), newline, .ref "body", .terminal .pop]

/-- Capital letters and underscores. -/
def tag : Expr := repOnce (.choice asciiAlphaUpper [literal "_"])

/-- Lines that do not start with the tag and a line ending or the end of the input. -/
def body : Expr :=
  .rep (.seq
    (.negative (.seq (.terminal .peek) [.choice newline [.terminal .endOfInput]]))
    [.ref "line"]) 0 none

/-- Characters up to a line ending, and the line ending. -/
def line : Expr :=
  .seq (.rep (.seq (.negative newline) [.terminal .any]) 0 none) [newline]

/-- What may stand between documents. -/
def whiteSpace : Expr := .choice (literal " ") [literal "\t", newline]

/-- The grammar of documents between tags. -/
def grammar : Grammar := .ofRules [
  ⟨0, "document", .normal, document⟩,
  ⟨1, "heredoc", .compoundAtomic, heredoc⟩,
  ⟨2, "tag", .atomic, tag⟩,
  ⟨3, "body", .atomic, body⟩,
  ⟨4, "line", .silent, line⟩,
  ⟨5, "WHITESPACE", .silent, whiteSpace⟩]

/-- The tag and the body of one document. -/
def contents? (node : Node) : Option (String × String) := do
  let tag ← (node.find "tag").head?
  let body ← (node.find "body").head?
  return (tag.text, body.text)

/-- The tags and the bodies of the documents in a text. Anything but a text is refused. -/
def heredocsIn (text : Datum) (fuel : Nat := ampleFuel) :
    Except CallError (List (String × String)) :=
  match grammar.parse [] [] .default { text } fuel with
  | .error _ => .ok []
  | .ok reply => do
    let found ← reply.answer
    let documents := match found.node with
      | some node => node.find "heredoc"
      | none => []
    return documents.filterMap contents?

/-- The tags and the bodies of the documents in a text. -/
def heredocs (text : String) (fuel : Nat := ampleFuel) :
    Except CallError (List (String × String)) :=
  heredocsIn (.text text) fuel

end Peg.Heredoc
