import Bindery.Json.Pointer

/-!
# Violations

A violation says how a value fails to be a document: a code, a place in the value and a
message. The place is written as a pointer into the value (`Location.path`).
-/

namespace Bindery.Contract

open Json

/-- The kinds of violations. -/
inductive ViolationCode where
  | documentNotObject
  | entriesNotArray
  | entryNotObject
  | missingField
  | wrongFieldType
  | unknownKind
  | emptyName
  | negativeCount
  | parameterNotObject
  | extendsNotObject
  | parentsNotArray
  | parentNotString
  deriving Repr, DecidableEq, Inhabited

namespace ViolationCode

/-- The codes in the order of their numbers. -/
def all : List ViolationCode :=
  [.documentNotObject, .entriesNotArray, .entryNotObject, .missingField, .wrongFieldType,
   .unknownKind, .emptyName, .negativeCount, .parameterNotObject, .extendsNotObject,
   .parentsNotArray, .parentNotString]

/-- The name of a code. -/
def name : ViolationCode → String
  | .documentNotObject => "documentNotObject"
  | .entriesNotArray => "entriesNotArray"
  | .entryNotObject => "entryNotObject"
  | .missingField => "missingField"
  | .wrongFieldType => "wrongFieldType"
  | .unknownKind => "unknownKind"
  | .emptyName => "emptyName"
  | .negativeCount => "negativeCount"
  | .parameterNotObject => "parameterNotObject"
  | .extendsNotObject => "extendsNotObject"
  | .parentsNotArray => "parentsNotArray"
  | .parentNotString => "parentNotString"

/-- The number of a code. -/
def number : ViolationCode → Nat
  | .documentNotObject => 1001
  | .entriesNotArray => 1002
  | .entryNotObject => 1003
  | .missingField => 1004
  | .wrongFieldType => 1005
  | .unknownKind => 1006
  | .emptyName => 1007
  | .negativeCount => 1008
  | .parameterNotObject => 1009
  | .extendsNotObject => 1010
  | .parentsNotArray => 1011
  | .parentNotString => 1012

/-- The code of a name. -/
def ofName? (name : String) : Option ViolationCode := all.find? fun code => code.name == name

end ViolationCode

/-! ## Places -/

/-- A place in a document: a top-level key, the index of an entry, the index of a
parameter, a field. Parts that do not apply are absent. -/
structure Location where
  interface : Option String
  index : Option Nat
  parameter : Option Nat
  field : Option String
  deriving Repr, DecidableEq, Inhabited

namespace Location

/-- The document itself. -/
def root : Location := ⟨none, none, none, none⟩

/-- What stands under a top-level key. -/
def ofKey (key : String) : Location := ⟨some key, none, none, none⟩

/-- An entry. -/
def ofEntry (interface : String) (index : Nat) : Location :=
  ⟨some interface, some index, none, none⟩

/-- A parameter of an entry. -/
def atParameter (l : Location) (n : Nat) : Location := { l with parameter := some n }

/-- A field of the place. -/
def atField (l : Location) (field : String) : Location := { l with field := some field }

/-- The pointer to the place, token by token. -/
def tokens (l : Location) : List String :=
  l.interface.toList ++ (l.index.map toString).toList
    ++ (match l.parameter with
        | none => []
        | some n => ["parameters", toString n])
    ++ l.field.toList

/-- The pointer to the place in its written form. -/
def path (l : Location) : String := writePointer l.tokens

/-- A place as JSON; absent parts are left out. -/
def toJson (l : Location) : Json :=
  .object
    ((l.interface.toList.map fun s => ("interface", .string s))
      ++ (l.index.toList.map fun n => ("index", Json.ofNat n))
      ++ (l.parameter.toList.map fun n => ("parameter", Json.ofNat n))
      ++ (l.field.toList.map fun s => ("field", .string s)))

end Location

/-! ## Violations -/

/-- A violation. -/
structure Violation where
  code : ViolationCode
  location : Location
  message : String
  deriving Repr, DecidableEq, Inhabited

namespace Violation

/-- The violation as one line of text; the document itself is shown as a slash. -/
def text (v : Violation) : String :=
  (if v.location.path = "" then "/" else v.location.path) ++ ": " ++ v.message

/-- A violation as JSON. -/
def toJson (v : Violation) : Json :=
  .object
    [("code", .string v.code.name), ("instancePath", .string v.location.path),
     ("location", v.location.toJson), ("message", .string v.message)]

end Violation

end Bindery.Contract
