import Bindery.Declaration.Merge
import Bindery.Declaration.Reader
import Bindery.Lineage
import Bindery.Naming
import Bindery.Text.Sorted

/-!
# Extraction

The document of a list of declarations. A method becomes a method entry; a property
becomes an event if its name is one of an event member, else a property entry. An
interface without members has no entries, but its parents count.

An extraction can be restricted to chosen interfaces. Their entries stay, and of the
table of parents what is needed to find their ancestors.
-/

namespace Bindery

open Text

/-- The entry of a member of an interface. -/
def Entry.ofMember (interface : String) : Member → Entry
  | .method m =>
      .method
        { MethodEntry.new interface m.name m.parameters m.returnType with
          thisType := m.thisType
          doc := m.doc }
  | .property p =>
      let entry := { PropertyEntry.new interface p.name p.typeText with doc := p.doc }
      if Naming.isEvent p.name then .event entry else .property entry

/-- What was extracted: a document, and the interfaces that have members in the order of
their declarations. -/
structure Extraction where
  document : Document
  names : List String
  deriving Inhabited

namespace Extraction

/-- Nothing extracted. -/
def empty : Extraction := ⟨Document.empty, []⟩

/-- Takes in the parents of a declaration. -/
def addParents (t : ParentTable) (d : Declaration) : ParentTable :=
  d.parents.foldl (fun t parent => t.add d.name parent) t

/-- Takes in a declaration. -/
def add (x : Extraction) (d : Declaration) : Extraction :=
  let parents := addParents x.document.parents d
  if d.members.isEmpty then { x with document := { x.document with parents := parents } }
  else
    { document :=
        { entries := x.document.entries.extend d.name (d.members.map (Entry.ofMember d.name))
          parents := parents }
      -- the table tells whether the interface is new, not the list of names
      names := if x.document.entries.has d.name then x.names else x.names ++ [d.name] }

/-- The extraction of declarations as they are. -/
def ofDeclarations (ds : List Declaration) : Extraction := ds.foldl add empty

/-- The extraction of a source text, the declarations of each interface merged. -/
def ofText (source : String) : Except Declaration.ReadError Extraction :=
  (Declaration.ofText source).map fun ds => ofDeclarations (mergeDeclarations ds)

/-- Keeps the selected interfaces; no selection keeps all. -/
def restrict (x : Extraction) (selected : List String) : Extraction :=
  if selected.isEmpty then x
  else
    let reached := x.document.parents.closure selected
    { document :=
        { entries := x.document.entries.keep selected.contains
          parents := x.document.parents.keep reached.contains }
      names := x.names.filter selected.contains }

/-- The interfaces that have members in ascending order. -/
def sortedNames (x : Extraction) : List String := sorted x.names

end Extraction

end Bindery
