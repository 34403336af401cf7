import Peg.Decimal.Shortest
import Peg.Text.LiteralForm

/-!
Untyped values, as they stand in a document or in the loose notation of expressions. They are
looked at for two things only: the literal form in which a message shows them, and the name of
their type, by which a message also tells what a value lacks.
-/

namespace Peg

/-- An untyped value. -/
inductive Datum where
  /-- The absent value. -/
  | null
  /-- A truth value. -/
  | bool (value : Bool)
  /-- A whole number of any size. -/
  | int (value : Int)
  /-- A floating point number. -/
  | float (value : Decimal.Binary64)
  /-- A text. -/
  | text (value : String)
  /-- A list of values. -/
  | list (items : List Datum)
  /-- Named values, in their order. -/
  | dict (fields : List (String × Datum))
deriving Inhabited

namespace Datum

/-- The name of the type of a value. -/
def typeName : Datum → String
  | null => "NoneType"
  | bool _ => "bool"
  | int _ => "int"
  | float _ => "float"
  | text _ => "str"
  | list _ => "list"
  | dict _ => "dict"

mutual

/-- The literal form of a value. -/
def form : Datum → String
  | null => "None"
  | bool true => "True"
  | bool false => "False"
  | int value => toString value
  | float value => value.toText
  | text value => Text.literalForm value
  | list items => Text.listForm (formList items)
  | dict fields => "\x7b" ++ ", ".intercalate (formFields fields) ++ "\x7d"

/-- The literal forms of the items of a list. -/
def formList : List Datum → List String
  | [] => []
  | item :: rest => item.form :: formList rest

/-- The literal forms of named values, each with its name in front. -/
def formFields : List (String × Datum) → List String
  | [] => []
  | (name, value) :: rest => (Text.literalForm name ++ ": " ++ value.form) :: formFields rest

end

end Datum

/-- The wording for a value of a type that lacks a property. -/
def lacking (typeName property : String) : String :=
  s!"'{typeName}' object has no attribute '{property}'"

end Peg
