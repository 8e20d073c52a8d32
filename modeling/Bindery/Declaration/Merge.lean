import Bindery.Declaration.Basic
import Bindery.Distinct
import Bindery.Keyed

/-!
# Bringing declarations of one interface together

An interface may be declared several times. Its declarations are merged into one, which
stands where the first one stood. It has the members of all of them in order, and the
parents of the first one as they are, followed by the parents that later ones add.
-/

namespace Bindery

/-- A declaration behind an earlier one of the same interface. -/
def Declaration.join (earlier later : Declaration) : Declaration :=
  { name := earlier.name
    parents := later.parents.foldl addName earlier.parents
    members := earlier.members ++ later.members }

/-- Takes a declaration into a table of merged ones. -/
def mergeStep (t : Keyed Declaration) (d : Declaration) : Keyed Declaration :=
  t.upsert d.name fun old =>
    match old with
    | none => d
    | some earlier => earlier.join d

/-- One declaration for each interface, in order of first appearance. -/
def mergeDeclarations (ds : List Declaration) : List Declaration :=
  (ds.foldl mergeStep Keyed.empty).entries.map Prod.snd

end Bindery
