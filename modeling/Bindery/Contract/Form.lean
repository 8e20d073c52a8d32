import Bindery.Contract.Violation
import Bindery.Document.Entry
import Bindery.Number.Double

/-!
# The form of fields

Each field of an entry or a parameter has a form that its value must have. `Form.fault?`
says what is wrong with a value that does not have it: a code and a message.

A count is a number with a whole value that is not negative, however it is written.
-/

namespace Bindery.Contract

open Number

/-- The form of the value of a field. -/
inductive Form where
  | text
  | nonEmptyText
  | kind
  | flag
  | count
  | list
  deriving Repr, DecidableEq

/-- How a message names a form. -/
def Form.expected : Form → String
  | .text => "a string"
  | .nonEmptyText => "a non-empty string"
  | .kind => "a string"
  | .flag => "a boolean"
  | .count => "a non-negative integer"
  | .list => "an array"

/-- What is wrong with the value of a field. -/
structure Fault where
  code : ViolationCode
  message : String
  deriving Repr, DecidableEq

/-- A value of another type than the form wants. -/
def wrongType (field : String) (form : Form) (value : Json) : Fault :=
  ⟨.wrongFieldType,
    "field '" ++ field ++ "' must be " ++ form.expected ++ ", found " ++ value.kindWord⟩

/-- Whether a double is a natural number; negative zero is. -/
def isCount (d : Double) : Bool := d.isWhole && (!d.negative || d.isZero)

/-- What is wrong with the value of a field of a given form. -/
def Form.fault? (field : String) : Form → Json → Option Fault
  | .text, .string _ => none
  | .nonEmptyText, .string s =>
      if s = "" then some ⟨.emptyName, "field '" ++ field ++ "' must not be empty"⟩ else none
  | .kind, .string s =>
      match EntryKind.ofName? s with
      | some _ => none
      | none =>
          some ⟨.unknownKind,
            "unknown kind '" ++ s ++ "', expected one of "
              ++ ", ".intercalate (EntryKind.all.map EntryKind.name)⟩
  | .flag, .boolean _ => none
  | .count, .number (.integer i) =>
      if i < 0 then
        some ⟨.negativeCount,
          "field '" ++ field ++ "' must not be negative, found " ++ toString i⟩
      else none
  | .count, .number (.real d) =>
      if isCount d then none else some (wrongType field .count (.number (.real d)))
  | .list, .array _ => none
  | form, value => some (wrongType field form value)

/-- A field with its form. -/
structure FieldForm where
  name : String
  form : Form

/-- The fields of an entry. -/
def entryForms : List FieldForm :=
  [⟨"kind", .kind⟩, ⟨"name", .nonEmptyText⟩, ⟨"interface", .text⟩, ⟨"doc", .text⟩,
   ⟨"parameters", .list⟩, ⟨"returnType", .text⟩, ⟨"arity", .count⟩, ⟨"required", .count⟩,
   ⟨"thisType", .text⟩, ⟨"type", .text⟩]

/-- The fields of a parameter. -/
def parameterForms : List FieldForm :=
  [⟨"name", .text⟩, ⟨"type", .text⟩, ⟨"optional", .flag⟩, ⟨"rest", .flag⟩]

/-- The fields that every entry has. -/
def entryRequired : List String := ["name", "interface", "kind"]

/-- The fields that an entry of a kind has beside them. -/
def requiredOfKind : EntryKind → List String
  | .method => ["parameters", "returnType"]
  | .property => ["type"]
  | .event => ["type"]

/-- The fields that every parameter has. -/
def parameterRequired : List String := ["name", "type"]

end Bindery.Contract
