import Peg.Text.Quoted

/-!
# Reading quoted texts

A quoted form can be read back, whatever the text between the delimiters is: a backslash says that
the next character is taken for itself or for a control character, and a delimiter without one is
the end. So a text and what follows its quoted form are determined by the characters of both.
-/
namespace Peg.Text

/-- What a character means behind a backslash. -/
def escapedChar : Char → Char
  | 'n' => '\n'
  | 'r' => '\r'
  | 't' => '\t'
  | c => c

/-- Reads a text up to its closing delimiter, and answers what comes after it as well. -/
def readQuoted (delimiter : Char) : List Char → Option (List Char × List Char)
  | [] => none
  | '\\' :: c :: rest =>
    (readQuoted delimiter rest).map fun read => (escapedChar c :: read.1, read.2)
  | c :: rest =>
    if c = delimiter then some ([], rest)
    else (readQuoted delimiter rest).map fun read => (c :: read.1, read.2)

/-- A character that delimits texts: it is no backslash, and stands for itself behind one. -/
structure IsDelimiter (delimiter : Char) : Prop where
  plain : delimiter ≠ '\\'
  literal : escapedChar delimiter = delimiter

section Delimited

variable {delimiter : Char} (delimits : IsDelimiter delimiter)

theorem readQuoted_plain {c : Char} (plain : c ≠ '\\') (other : c ≠ delimiter) (rest : List Char) :
    readQuoted delimiter (c :: rest) =
      (readQuoted delimiter rest).map fun read => (c :: read.1, read.2) := by
  rw [readQuoted, if_neg other]
  exact fun _ _ same _ => plain same

include delimits

theorem readQuoted_delimiter (rest : List Char) :
    readQuoted delimiter (delimiter :: rest) = some ([], rest) := by
  rw [readQuoted, if_pos rfl]
  exact fun _ _ same _ => delimits.plain same

/-- The form of a character is read as this character. -/
theorem readQuoted_quoteChar (c : Char) (rest : List Char) :
    readQuoted delimiter (quoteChar delimiter c ++ rest) =
      (readQuoted delimiter rest).map fun read => (c :: read.1, read.2) := by
  -- Four characters have escapes, the delimiter has one here, and the others stand for themselves.
  unfold quoteChar
  split
  next same => rw [same]; rfl
  split
  next same => rw [same]; rfl
  split
  next same => rw [same]; rfl
  split
  next same => rw [same]; rfl
  split
  next same =>
    rw [List.cons_append, List.singleton_append, readQuoted, delimits.literal, same]
  next plain _ _ _ other => exact readQuoted_plain plain other rest

/-- A text is read back from its quoted form, and what follows is left. -/
theorem readQuoted_flatMap (text rest : List Char) :
    readQuoted delimiter (text.flatMap (quoteChar delimiter) ++ delimiter :: rest) =
      some (text, rest) := by
  induction text with
  | nil => exact readQuoted_delimiter delimits rest
  | cons c text ih =>
    rw [List.flatMap_cons, List.append_assoc, readQuoted_quoteChar delimits, ih]
    rfl

end Delimited

theorem quote_toList (delimiter : Char) (text : String) :
    (quote delimiter text).toList =
      delimiter :: (text.toList.flatMap (quoteChar delimiter) ++ [delimiter]) := by
  rw [quote, String.toList_ofList, List.cons_append]

theorem isDelimiter_double : IsDelimiter '"' := ⟨by decide, rfl⟩

theorem isDelimiter_single : IsDelimiter '\'' := ⟨by decide, rfl⟩

end Peg.Text
