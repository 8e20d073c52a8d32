import Bindery.Document.Basic
import Bindery.Json.Printer

/-!
# Writing documents

A document is written as one object: a member for each interface in order, holding the
list of its entries, and at the end the table of parents under a key of its own. The
counts of methods are written as they are kept; parts that are absent are left out.

`Document.tree` is the tree that is printed. An interface that has the name of the
parents' key makes that key appear twice in it; as a value (`Document.toJson`) the
table of parents then stands in the place of the interface.
-/

namespace Bindery

open Json

/-- A member for a part that may be absent. -/
def optionalMember (key : String) (part : Option String) : List (String × Json) :=
  match part with
  | none => []
  | some s => [(key, .string s)]

/-- A parameter as JSON. -/
def Parameter.toJson (p : Parameter) : Json :=
  .object
    [("name", .string p.name), ("type", .string p.typeText), ("optional", .boolean p.optional),
     ("rest", .boolean p.rest)]

/-- The members of a method behind its kind. -/
def MethodEntry.members (m : MethodEntry) : List (String × Json) :=
  [("interface", .string m.interface), ("name", .string m.name),
   ("parameters", .array (m.parameters.map Parameter.toJson)), ("arity", Json.ofNat m.arity),
   ("required", Json.ofNat m.required), ("returnType", .string m.returnType)]
    ++ optionalMember "thisType" m.thisType ++ optionalMember "doc" m.doc

/-- The members of a property or event behind its kind. -/
def PropertyEntry.members (p : PropertyEntry) : List (String × Json) :=
  [("interface", .string p.interface), ("name", .string p.name), ("type", .string p.typeText)]
    ++ optionalMember "doc" p.doc

/-- The members of an entry behind its kind. -/
def Entry.members : Entry → List (String × Json)
  | .method m => m.members
  | .property p => p.members
  | .event p => p.members

/-- An entry as JSON. -/
def Entry.toJson (e : Entry) : Json := .object (("kind", .string e.kind.name) :: e.members)

/-- The own entries of an interface as JSON. -/
def entriesToJson (entries : List Entry) : Json := .array (entries.map Entry.toJson)

/-- The table of parents as JSON. -/
def ParentTable.toJson (t : ParentTable) : Json :=
  .object (t.entries.map fun e => (e.1, .array (e.2.map .string)))

/-- The tree that a document is printed as. -/
def Document.tree (d : Document) : Json :=
  .object ((d.entries.entries.map fun e => (e.1, entriesToJson e.2))
    ++ [(parentsKey, d.parents.toJson)])

/-- The value of a document. -/
def Document.toJson (d : Document) : Json := d.tree.settle

/-- The printed form of a document. -/
def Document.pretty (d : Document) : String := d.tree.pretty

end Bindery
