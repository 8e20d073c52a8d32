import Bindery.Json.Error

/-!
# Taking values apart

A decoder takes a value of one form or says how the value differs from it.

Records are decoded in two passes over their fields. The first goes through the members
in order and checks every known one (`checkMembers`), so that of several faults the first
in the text is reported; the second picks the fields, and reports those that are missing
in the order in which the record declares them. A record may also be given as a list of
its fields in order (`Fields.ofItems`).
-/

namespace Bindery.Json

/-- Takes a value apart, or says what is wrong with it. -/
abbrev Decoder (α : Type) := Json → Except Mismatch α

/-- A text. -/
def asString : Decoder String
  | .string s => .ok s
  | j => .error (.wrongType j.shape "a string")

/-- A truth value. -/
def asBoolean : Decoder Bool
  | .boolean b => .ok b
  | j => .error (.wrongType j.shape "a boolean")

/-- A natural number. -/
def asCount : Decoder Nat
  | .number (.integer i) =>
      if i < 0 then .error (.wrongValue (.number (.integer i)) "usize") else .ok i.toNat
  | j => .error (.wrongType j.shape "usize")

/-- A text, or nothing for null. -/
def asOptionalString : Decoder (Option String)
  | .null => .ok none
  | j => (asString j).map some

/-- Decodes the items of a list in order. -/
def decodeItems {α : Type} (item : Decoder α) : List Json → Except Mismatch (List α)
  | [] => .ok []
  | j :: rest =>
      match item j with
      | .error m => .error m
      | .ok x =>
          match decodeItems item rest with
          | .error m => .error m
          | .ok xs => .ok (x :: xs)

/-- A list. -/
def asList {α : Type} (item : Decoder α) : Decoder (List α)
  | .array items => decodeItems item items
  | j => .error (.wrongType j.shape "a sequence")

/-! ## Records -/

/-- Forgets what a decoder found. -/
def checking {α : Type} (d : Decoder α) (j : Json) : Except Mismatch Unit := (d j).map fun _ => ()

/-- A known field: its name and the check of its value. -/
structure FieldCheck where
  name : String
  check : Json → Except Mismatch Unit

/-- Checks the known ones among members in order; `seen` lists the names that came up. -/
def checkMembers (fields : List FieldCheck) (seen : List String) :
    List (String × Json) → Except Mismatch Unit
  | [] => .ok ()
  | (key, value) :: rest =>
      match fields.find? fun f => f.name == key with
      | none => checkMembers fields seen rest
      | some f =>
          if seen.contains key then .error (.duplicateField key)
          else match f.check value with
            | .error m => .error m
            | .ok _ => checkMembers fields (key :: seen) rest

/-- The fields of a record that was given, and what is said of one that is missing. -/
structure Fields where
  members : List (String × Json)
  missing : String → Mismatch

/-- The fields of an object. -/
def Fields.ofMembers (members : List (String × Json)) : Fields := ⟨members, .missingField⟩

/-- The fields of a record that is given as a list; `record` names the record. -/
def Fields.ofItems (record : String) (fields : List FieldCheck) (items : List Json) : Fields :=
  { members := (fields.map FieldCheck.name).zip items
    missing := fun name =>
      .wrongLength ((fields.map FieldCheck.name).idxOf name)
        (record ++ " with " ++ toString fields.length ++ " elements") }

/-- A field that has to be there. -/
def Fields.required {α : Type} (f : Fields) (name : String) (d : Decoder α) :
    Except Mismatch α :=
  match f.members.lookup name with
  | none => .error (f.missing name)
  | some j => d j

/-- A field that may be missing. -/
def Fields.withDefault {α : Type} (f : Fields) (name : String) (d : Decoder α) (default : α) :
    Except Mismatch α :=
  match f.members.lookup name with
  | none => .ok default
  | some j => d j

/-- A list that gives a record has no items beyond its fields. -/
def checkLength (fields : List FieldCheck) (items : List Json) : Except Mismatch Unit :=
  if fields.length < items.length then
    .error (.wrongLength items.length (toString fields.length ++ " elements in sequence"))
  else .ok ()

/-- A record given as an object. -/
def recordOfMembers {α : Type} (fields : List FieldCheck) (pick : Fields → Except Mismatch α)
    (members : List (String × Json)) : Except Mismatch α :=
  match checkMembers fields [] members with
  | .error m => .error m
  | .ok _ => pick (Fields.ofMembers members)

/-- A record given as a list. -/
def recordOfItems {α : Type} (record : String) (fields : List FieldCheck)
    (pick : Fields → Except Mismatch α) (items : List Json) : Except Mismatch α :=
  let f := Fields.ofItems record fields items
  match checkMembers fields [] f.members with
  | .error m => .error m
  | .ok _ =>
      match pick f with
      | .error m => .error m
      | .ok x =>
          match checkLength fields items with
          | .error m => .error m
          | .ok _ => .ok x

/-- A record, given in either way. -/
def asRecord {α : Type} (record : String) (fields : List FieldCheck)
    (pick : Fields → Except Mismatch α) : Decoder α
  | .object members => recordOfMembers fields pick members
  | .array items => recordOfItems record fields pick items
  | j => .error (.wrongType j.shape record)

end Bindery.Json
