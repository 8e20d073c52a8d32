import Bindery.Distinct
import Bindery.Document.Entry
import Bindery.Keyed

/-!
# Documents

A document maps interfaces to their own entries, and interfaces to their direct parents.
Both tables keep the order in which their names came up. Inherited entries are not
stored; `Bindery.Lineage` finds them.
-/

namespace Bindery

/-- The own entries of interfaces. -/
abbrev EntryTable := Keyed (List Entry)

/-- The direct parents of interfaces. -/
abbrev ParentTable := Keyed (List String)

/-- Adds entries to an interface; it comes into being even if there are none. -/
def EntryTable.extend (t : EntryTable) (name : String) (entries : List Entry) : EntryTable :=
  t.upsert name fun old => old.getD [] ++ entries

/-- The own entries of an interface. -/
def EntryTable.entriesOf (t : EntryTable) (name : String) : List Entry := (t.get? name).getD []

/-- Adds a parent unless the interface has it already. -/
def ParentTable.add (t : ParentTable) (child parent : String) : ParentTable :=
  t.upsert child fun old => addName (old.getD []) parent

/-- The direct parents of an interface. -/
def ParentTable.parentsOf (t : ParentTable) (name : String) : List String :=
  (t.get? name).getD []

/-- A document. -/
structure Document where
  entries : EntryTable
  parents : ParentTable
  deriving Inhabited

/-- The document without interfaces. -/
def Document.empty : Document := ⟨Keyed.empty, Keyed.empty⟩

/-- The document with the parameters of all methods counted anew. -/
def Document.refreshCounts (d : Document) : Document :=
  { d with entries := d.entries.mapValues fun es => es.map Entry.refreshCounts }

/-- The key under which a written document holds the table of parents. -/
def parentsKey : String := "__extends__"

end Bindery
