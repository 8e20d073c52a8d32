import Bindery.Document.Basic
import Bindery.Json.Decode

/-!
# Documents from values

A document is taken from the value of its written form. The counts of a method are taken
as they are given, and as 0 where they are not; only when all interfaces are there, the
parameters of every method are counted anew. Members with unknown keys are passed over.

An entry comes in two steps: first its kind is found, then the other members are decoded
as that kind of entry. `EntryContent` is what lies between the two, and the reader that
takes a document straight from its text meets this module there.
-/

namespace Bindery

open Json

/-! ## Entries -/

/-- The fields of a parameter. -/
def parameterFields : List FieldCheck :=
  [⟨"name", checking asString⟩, ⟨"type", checking asString⟩, ⟨"optional", checking asBoolean⟩,
   ⟨"rest", checking asBoolean⟩]

/-- A parameter from its fields. -/
def Parameter.ofFields (f : Fields) : Except Mismatch Parameter :=
  match f.required "name" asString with
  | .error m => .error m
  | .ok name =>
      match f.required "type" asString with
      | .error m => .error m
      | .ok typeText =>
          match f.withDefault "optional" asBoolean false with
          | .error m => .error m
          | .ok optional =>
              match f.withDefault "rest" asBoolean false with
              | .error m => .error m
              | .ok rest => .ok ⟨name, typeText, optional, rest⟩

/-- A parameter. -/
def Parameter.ofJson : Decoder Parameter :=
  asRecord "struct Parameter" parameterFields Parameter.ofFields

/-- The fields of a method behind its kind. -/
def methodFields : List FieldCheck :=
  [⟨"interface", checking asString⟩, ⟨"name", checking asString⟩,
   ⟨"parameters", checking (asList Parameter.ofJson)⟩, ⟨"arity", checking asCount⟩,
   ⟨"required", checking asCount⟩, ⟨"returnType", checking asString⟩,
   ⟨"thisType", checking asOptionalString⟩, ⟨"doc", checking asOptionalString⟩]

/-- A method from its fields. -/
def MethodEntry.ofFields (f : Fields) : Except Mismatch MethodEntry :=
  match f.required "interface" asString with
  | .error m => .error m
  | .ok interface =>
      match f.required "name" asString with
      | .error m => .error m
      | .ok name =>
          match f.required "parameters" (asList Parameter.ofJson) with
          | .error m => .error m
          | .ok parameters =>
              match f.withDefault "arity" asCount 0 with
              | .error m => .error m
              | .ok arity =>
                  match f.withDefault "required" asCount 0 with
                  | .error m => .error m
                  | .ok required =>
                      match f.required "returnType" asString with
                      | .error m => .error m
                      | .ok returnType =>
                          match f.withDefault "thisType" asOptionalString none with
                          | .error m => .error m
                          | .ok thisType =>
                              match f.withDefault "doc" asOptionalString none with
                              | .error m => .error m
                              | .ok doc =>
                                  .ok { interface := interface
                                        name := name
                                        parameters := parameters
                                        arity := arity
                                        required := required
                                        returnType := returnType
                                        thisType := thisType
                                        doc := doc }

/-- The fields of a property or event behind its kind. -/
def propertyFields : List FieldCheck :=
  [⟨"interface", checking asString⟩, ⟨"name", checking asString⟩, ⟨"type", checking asString⟩,
   ⟨"doc", checking asOptionalString⟩]

/-- A property or event from its fields. -/
def PropertyEntry.ofFields (f : Fields) : Except Mismatch PropertyEntry :=
  match f.required "interface" asString with
  | .error m => .error m
  | .ok interface =>
      match f.required "name" asString with
      | .error m => .error m
      | .ok name =>
          match f.required "type" asString with
          | .error m => .error m
          | .ok typeText =>
              match f.withDefault "doc" asOptionalString none with
              | .error m => .error m
              | .ok doc => .ok ⟨interface, name, typeText, doc⟩

/-- What an entry holds beside its kind: members with keys, or values in order. -/
inductive EntryContent where
  | members (ms : List (String × Json))
  | items (js : List Json)
  deriving Repr

/-- A record from the content of an entry. -/
def EntryContent.record {α : Type} (record : String) (fields : List FieldCheck)
    (pick : Fields → Except Mismatch α) : EntryContent → Except Mismatch α
  | .members ms => recordOfMembers fields pick ms
  | .items js => recordOfItems record fields pick js

/-- A property or event from the content of an entry. -/
def PropertyEntry.ofContent (c : EntryContent) : Except Mismatch PropertyEntry :=
  c.record "struct PropertyEntry" propertyFields PropertyEntry.ofFields

/-- The entry of a kind with a content. -/
def Entry.ofContent (kind : EntryKind) (c : EntryContent) : Except Mismatch Entry :=
  match kind with
  | .method =>
      (c.record "struct MethodEntry" methodFields MethodEntry.ofFields).map .method
  | .property => (PropertyEntry.ofContent c).map .property
  | .event => (PropertyEntry.ofContent c).map .event

/-- The kind that a name stands for. -/
def kindOfName (name : String) : Except Mismatch EntryKind :=
  match EntryKind.ofName? name with
  | some kind => .ok kind
  | none => .error (.unknownVariant name (EntryKind.all.map EntryKind.name))

/-- What is expected where the kind of an entry stands. -/
def kindExpected : String := "variant identifier"

/-- What is expected where an entry stands. -/
def entryExpected : String := "internally tagged enum MemberEntry"

/-- The kind of an entry. -/
def asKind : Decoder EntryKind
  | .string s => kindOfName s
  | j => .error (.wrongType j.shape kindExpected)

/-- Finds the kind among the members of an entry, and the other members. -/
def splitKind (kind : Option EntryKind) (others : List (String × Json)) :
    List (String × Json) → Except Mismatch (EntryKind × List (String × Json))
  | [] =>
      match kind with
      | none => .error (.missingField "kind")
      | some k => .ok (k, others.reverse)
  | (key, value) :: rest =>
      if key = "kind" then
        if kind.isSome then .error (.duplicateField "kind")
        else match asKind value with
          | .error m => .error m
          | .ok k => splitKind (some k) others rest
      else splitKind kind ((key, value) :: others) rest

/-- An entry. -/
def Entry.ofJson : Decoder Entry
  | .object members =>
      match splitKind none [] members with
      | .error m => .error m
      | .ok (kind, others) => Entry.ofContent kind (.members others)
  | .array [] => .error (.missingField "kind")
  | .array (first :: rest) =>
      match asKind first with
      | .error m => .error m
      | .ok kind => Entry.ofContent kind (.items rest)
  | j => .error (.wrongType j.shape entryExpected)

/-! ## Documents -/

/-- What is expected where a document stands. -/
def documentExpected : String := "an object mapping interface names to member arrays"

/-- Reads the members of a table of parents into one. -/
def ParentTable.ofMembers (t : ParentTable) :
    List (String × Json) → Except Mismatch ParentTable
  | [] => .ok t
  | (child, value) :: rest =>
      match asList asString value with
      | .error m => .error m
      | .ok parents => ParentTable.ofMembers (t.put child parents) rest

/-- A table of parents. -/
def ParentTable.ofJson : Decoder ParentTable
  | .object members => ParentTable.ofMembers Keyed.empty members
  | j => .error (.wrongType j.shape "a map")

/-- Reads the members of a document into one. -/
def Document.ofMembers (d : Document) : List (String × Json) → Except Mismatch Document
  | [] => .ok d
  | (key, value) :: rest =>
      if key = parentsKey then
        match ParentTable.ofJson value with
        | .error m => .error m
        | .ok parents => Document.ofMembers { d with parents := parents } rest
      else
        match asList Entry.ofJson value with
        | .error m => .error m
        | .ok entries => Document.ofMembers { d with entries := d.entries.put key entries } rest

/-- A document. -/
def Document.ofJson : Decoder Document
  | .object members => (Document.ofMembers Document.empty members).map Document.refreshCounts
  | j => .error (.wrongType j.shape documentExpected)

end Bindery
