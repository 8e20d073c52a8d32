import Bindery.Contract.Check
import Mathlib.Data.List.Destutter

/-!
# The contract as a schema

The contract of documents is written down as a JSON schema of draft 7.  A schema is taken for
what it says of a value at a place: the list of its errors.  There is one definition for each
keyword that the schema of documents uses, and the schema itself (`documentSchema`) is put
together from them.

An error becomes a violation by its place alone, or by the field if it is about one that is
missing (`violationOf`).  The report of the schema has the violations in order, equal
neighbours being one (`schemaReport`): a kind that is no text fails its type and its
enumeration, and a count can fail its type and its minimum.
-/

namespace Bindery.Contract

open Json Number

/-! ## Keywords -/

/-- What a schema finds wrong: the path to a value, and the field that the value lacks if it
is that. -/
structure SchemaError where
  path : List String
  missing : Option String
  deriving Repr, DecidableEq

/-- A schema says what is wrong with a value at the end of a path. -/
def Schema : Type := List String → Json → List SchemaError

/-- Whether the value is a number without a fraction. -/
def isWhole : Json → Bool
  | .number (.integer _) => true
  | .number (.real d) => d.isWhole
  | _ => false

/-- Whether the value has the type.  A number without a fraction is an integer however it is
written. -/
def hasType (type : String) (v : Json) : Bool :=
  if type = "integer" then isWhole v else v.kindWord == type

/-- Whether the value is one of the texts. -/
def isOneOf (texts : List String) : Json → Bool
  | .string s => texts.contains s
  | _ => false

/-- Whether the value is no text that is shorter. -/
def isNotShorter (n : Nat) : Json → Bool
  | .string s => decide (n ≤ s.length)
  | _ => true

/-- Whether the value is no number below zero. -/
def isNotNegative : Json → Bool
  | .number (.integer i) => decide (0 ≤ i)
  | .number (.real d) => !d.negative || d.isZero
  | _ => true

namespace Schema

/-- A value that does not pass a test has one error. -/
def test (passes : Json → Bool) : Schema := fun path v =>
  if passes v then [] else [⟨path, none⟩]

/-- The keyword `type`. -/
def ofType (type : String) : Schema := test (hasType type)

/-- The keyword `enum` for texts; with one text, the keyword `const`. -/
def oneOf (texts : List String) : Schema := test (isOneOf texts)

/-- The keyword `minLength`. -/
def minLength (n : Nat) : Schema := test (isNotShorter n)

/-- The keyword `minimum` with the value zero. -/
def notNegative : Schema := test isNotNegative

/-- The keyword `required`. -/
def required (fields : List String) : Schema := fun path v =>
  match v with
  | .object ms =>
      (fields.filter fun field => (ms.lookup field).isNone).map fun field => ⟨path, some field⟩
  | _ => []

/-- The keyword `properties`. -/
def properties (parts : List (String × Schema)) : Schema := fun path v =>
  parts.flatMap fun part =>
    match v.member? part.1 with
    | some value => part.2 (path ++ [part.1]) value
    | none => []

/-- The keyword `additionalProperties` beside `properties` with the given keys. -/
def additional (keys : List String) (s : Schema) : Schema := fun path v =>
  match v with
  | .object ms =>
      (ms.filter fun m => !keys.contains m.1).flatMap fun m => s (path ++ [m.1]) m.2
  | _ => []

/-- The keyword `items`. -/
def items (s : Schema) : Schema := fun path v =>
  match v with
  | .array vs => vs.zipIdx.flatMap fun p => s (path ++ [toString p.2]) p.1
  | _ => []

/-- Keywords side by side, and the keyword `allOf`. -/
def all (ss : List Schema) : Schema := fun path v => ss.flatMap fun s => s path v

/-- The keywords `if` and `then`. -/
def implies (condition conclusion : Schema) : Schema := fun path v =>
  if (condition path v).isEmpty then conclusion path v else []

end Schema

/-! ## The schema of documents -/

/-- The schema of parameters. -/
def parameterSchema : Schema :=
  .all
    [.ofType "object",
     .required ["name", "type"],
     .properties
       [("name", .ofType "string"), ("type", .ofType "string"), ("optional", .ofType "boolean"),
        ("rest", .ofType "boolean")]]

/-- The schema of entries. -/
def entrySchema : Schema :=
  .all
    [.ofType "object",
     .required ["name", "interface", "kind"],
     .properties
       [("kind", .all [.ofType "string", .oneOf ["method", "property", "event"]]),
        ("name", .all [.ofType "string", .minLength 1]),
        ("interface", .ofType "string"),
        ("doc", .ofType "string"),
        ("parameters", .all [.ofType "array", .items parameterSchema]),
        ("returnType", .ofType "string"),
        ("arity", .all [.ofType "integer", .notNegative]),
        ("required", .all [.ofType "integer", .notNegative]),
        ("thisType", .ofType "string"),
        ("type", .ofType "string")],
     .implies (.all [.properties [("kind", .oneOf ["method"])], .required ["kind"]])
       (.required ["parameters", "returnType"]),
     .implies (.all [.properties [("kind", .oneOf ["property", "event"])], .required ["kind"]])
       (.required ["type"])]

/-- The schema of the entries of an interface. -/
def entriesSchema : Schema := .all [.ofType "array", .items entrySchema]

/-- The schema of the parents of an interface. -/
def parentsSchema : Schema := .all [.ofType "array", .items (.ofType "string")]

/-- The schema of the table of parents. -/
def tableSchema : Schema := .all [.ofType "object", .additional [] parentsSchema]

/-- The schema of documents. -/
def documentSchema : Schema :=
  .all
    [.ofType "object", .properties [(parentsKey, tableSchema)],
     .additional [parentsKey] entriesSchema]

/-! ## From errors to violations -/

/-- What the field at a path has to be, as messages say it. -/
def expectedAt (field : String) : String :=
  if field = "parameters" then "an array"
  else if field = "arity" ∨ field = "required" then "a non-negative integer"
  else if field = "optional" ∨ field = "rest" then "a boolean"
  else "a string"

/-- A value of another type than its field wants. -/
def wrongTypeAt (field expected found : String) : Fault :=
  ⟨.wrongFieldType, "field '" ++ field ++ "' must be " ++ expected ++ ", found " ++ found⟩

/-- The fault of a kind. -/
def kindFault (found : String) : Option Json → Fault
  | some (.string text) =>
      ⟨.unknownKind, "unknown kind '" ++ text ++ "', expected one of method, property, event"⟩
  | _ => wrongTypeAt "kind" "a string" found

/-- The fault of a name. -/
def nameFault (found : String) : Option Json → Fault
  | some (.string text) =>
      if text = "" then ⟨.emptyName, "field 'name' must not be empty"⟩
      else wrongTypeAt "name" "a non-empty string" found
  | _ => wrongTypeAt "name" "a non-empty string" found

/-- The fault of a count. -/
def countFault (field found : String) : Option Json → Fault
  | some (.number (.integer i)) =>
      if i < 0 then
        ⟨.negativeCount, "field '" ++ field ++ "' must not be negative, found " ++ toString i⟩
      else wrongTypeAt field "a non-negative integer" found
  | _ => wrongTypeAt field "a non-negative integer" found

/-- The fault of a field of an entry. -/
def entryFieldFault (field found : String) (value : Option Json) : Fault :=
  if field = "kind" then kindFault found value
  else if field = "name" then nameFault found value
  else if field = "arity" ∨ field = "required" then countFault field found value
  else wrongTypeAt field (expectedAt field) found

/-- The fault of the value at the end of a path. -/
def faultAt (path : List String) (value : Option Json) : Fault :=
  let found := (value.map kindWord).getD "nothing"
  match path with
  | [] => ⟨.documentNotObject, "IR document must be a JSON object, found " ++ found⟩
  | [key] =>
      if key = parentsKey then
        ⟨.extendsNotObject, "'" ++ parentsKey ++ "' must be an object, found " ++ found⟩
      else ⟨.entriesNotArray, "members of '" ++ key ++ "' must be an array, found " ++ found⟩
  | [key, child] =>
      if key = parentsKey then
        ⟨.parentsNotArray, "parents of '" ++ child ++ "' must be an array, found " ++ found⟩
      else ⟨.entryNotObject, "member entry must be an object, found " ++ found⟩
  | key :: child :: field :: rest =>
      if key = parentsKey then
        ⟨.parentNotString,
          "parent " ++ field ++ " of '" ++ child ++ "' must be a string, found " ++ found⟩
      else
        match rest with
        | [] => entryFieldFault field found value
        | [last] =>
            if field = "parameters" then
              ⟨.parameterNotObject, "parameter must be an object, found " ++ found⟩
            else wrongTypeAt last (expectedAt last) found
        | rest => wrongTypeAt (rest.getLastD "") (expectedAt (rest.getLastD "")) found

/-- The place that a path behind an entry leads to. -/
def locationIn (entry : Location) : List String → Location
  | [] => entry
  | [field] => entry.atField field
  | field :: n :: rest =>
      if field = "parameters" then
        match n.toNat?, rest with
        | some n, [] => entry.atParameter n
        | some n, last :: _ => (entry.atParameter n).atField last
        | none, _ => entry.atField "parameters"
      else entry.atField field

/-- The place that a path leads to. -/
def locationOf : List String → Location
  | [] => .root
  | [key] => .ofKey key
  | key :: child :: rest =>
      if key = parentsKey then (Location.ofKey parentsKey).atField child
      else
        match child.toNat? with
        | some index => locationIn (.ofEntry key index) rest
        | none => (Location.ofKey key).atField child

/-- The violation that an error is.  An error is handed over with the written form of its
path. -/
def violationOf (j : Json) (e : SchemaError) : Violation :=
  let tokens := pointerTokens (writePointer e.path)
  match e.missing with
  | some field =>
      ⟨.missingField, locationOf (tokens ++ [field]), "missing required field '" ++ field ++ "'"⟩
  | none =>
      let fault := faultAt tokens (resolve? tokens j)
      ⟨fault.code, locationOf tokens, fault.message⟩

/-- The violations that the errors of a value are, as they come. -/
def violationsOf (j : Json) (es : List SchemaError) : List Violation := es.map (violationOf j)

/-- The report of the schema on a value: the violations in order, without neighbours that are
equal. -/
def schemaReport (j : Json) : List Violation :=
  ((violationsOf j (documentSchema [] j)).mergeSort fun a b =>
    (compareIn (topKeys j) a b).isLE).destutter (· ≠ ·)

end Bindery.Contract
