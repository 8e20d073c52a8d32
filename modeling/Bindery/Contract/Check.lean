import Bindery.Contract.Form
import Bindery.Document.Basic

/-!
# The contract of documents

A value is a document if it meets the contract: an object whose members are lists of
entries, apart from the table of parents, which is an object of lists of strings. Fields
that the contract does not name are free.

`violations` walks through a value and lists each violation once. `check` puts them in
the order of the document: by top-level key, entry, parameter, field.
-/

namespace Bindery.Contract

/-! ## The walk -/

/-- The fields that are missing among members at a place. -/
def missingFields (place : Location) (required : List String) (members : List (String × Json)) :
    List Violation :=
  (required.filter fun field => (members.lookup field).isNone).map fun field =>
    ⟨.missingField, place.atField field, "missing required field '" ++ field ++ "'"⟩

/-- The known fields whose values do not have their form. -/
def faultyFields (place : Location) (forms : List FieldForm) (members : List (String × Json)) :
    List Violation :=
  forms.filterMap fun f =>
    match members.lookup f.name with
    | none => none
    | some value =>
        (f.form.fault? f.name value).map fun fault =>
          ⟨fault.code, place.atField f.name, fault.message⟩

/-- The violations of a parameter. -/
def parameterViolations (place : Location) : Json → List Violation
  | .object members =>
      missingFields place parameterRequired members ++ faultyFields place parameterForms members
  | value =>
      [⟨.parameterNotObject, place, "parameter must be an object, found " ++ value.kindWord⟩]

/-- The kind that the members of an entry give. -/
def givenKind? (members : List (String × Json)) : Option EntryKind :=
  match members.lookup "kind" with
  | some (.string s) => EntryKind.ofName? s
  | _ => none

/-- The fields that the members of an entry have to include. -/
def requiredFields (members : List (String × Json)) : List String :=
  match givenKind? members with
  | some kind => entryRequired ++ requiredOfKind kind
  | none => entryRequired

/-- The violations of the parameters of an entry. -/
def parametersViolations (place : Location) (members : List (String × Json)) : List Violation :=
  match members.lookup "parameters" with
  | some (.array items) =>
      items.zipIdx.flatMap fun p => parameterViolations (place.atParameter p.2) p.1
  | _ => []

/-- The violations of an entry. -/
def entryViolations (place : Location) : Json → List Violation
  | .object members =>
      missingFields place (requiredFields members) members
        ++ faultyFields place entryForms members ++ parametersViolations place members
  | value => [⟨.entryNotObject, place, "member entry must be an object, found " ++ value.kindWord⟩]

/-- The violations of the entries of an interface. -/
def interfaceViolations (interface : String) : Json → List Violation
  | .array items =>
      items.zipIdx.flatMap fun p => entryViolations (Location.ofEntry interface p.2) p.1
  | value =>
      [⟨.entriesNotArray, Location.ofKey interface,
        "members of '" ++ interface ++ "' must be an array, found " ++ value.kindWord⟩]

/-- The violations of the parents of an interface. -/
def parentsViolations (child : String) : Json → List Violation
  | .array items =>
      items.zipIdx.filterMap fun p =>
        match p.1 with
        | .string _ => none
        | value =>
            some ⟨.parentNotString, (Location.ofKey parentsKey).atField child,
              "parent " ++ toString p.2 ++ " of '" ++ child ++ "' must be a string, found "
                ++ value.kindWord⟩
  | value =>
      [⟨.parentsNotArray, (Location.ofKey parentsKey).atField child,
        "parents of '" ++ child ++ "' must be an array, found " ++ value.kindWord⟩]

/-- The violations of the table of parents. -/
def tableViolations : Json → List Violation
  | .object members => members.flatMap fun m => parentsViolations m.1 m.2
  | value =>
      [⟨.extendsNotObject, Location.ofKey parentsKey,
        "'" ++ parentsKey ++ "' must be an object, found " ++ value.kindWord⟩]

/-- The violations of a member of a document. -/
def memberViolations (key : String) (value : Json) : List Violation :=
  if key = parentsKey then tableViolations value else interfaceViolations key value

/-- The violations of a value. -/
def violations : Json → List Violation
  | .object members => members.flatMap fun m => memberViolations m.1 m.2
  | value =>
      [⟨.documentNotObject, Location.root,
        "IR document must be a JSON object, found " ++ value.kindWord⟩]

/-! ## Their order -/

/-- The top-level keys of a value. -/
def topKeys : Json → List String
  | .object members => members.map Prod.fst
  | _ => []

/-- The position of the top-level key of a place. -/
def keyPosition (keys : List String) (l : Location) : Option Nat :=
  match l.interface with
  | some key => keys.idxOf? key
  | none => none

/-- Compares violations by their places, then by code and message. -/
def compareIn (keys : List String) (a b : Violation) : Ordering :=
  (compare (keyPosition keys a.location) (keyPosition keys b.location)).then <|
  (compare a.location.index b.location.index).then <|
  (compare a.location.parameter b.location.parameter).then <|
  (compare a.location.field b.location.field).then <|
  (compare a.code.number b.code.number).then <|
  compare a.message b.message

/-- The violations of a value in order. -/
def check (j : Json) : List Violation :=
  (violations j).mergeSort fun a b => (compareIn (topKeys j) a b).isLE

end Bindery.Contract
