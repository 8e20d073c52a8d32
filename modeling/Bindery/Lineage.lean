import Bindery.Distinct
import Bindery.Document.Basic

/-!
# Ancestors and inherited entries

The ancestors of an interface are listed generation by generation: all parents in their
declared order, then the parents of those, and so on, each name once and never the
interface itself. Names without an entry in the table of parents have no parents;
cycles do no harm.

The walk keeps a queue of names to visit. It ends because every step takes a name off
the queue, and the parents that it puts there belong to a name that is visited for the
first time: the length of the queue together with the number of parents of names not yet
visited goes down.
-/

namespace Bindery

namespace ParentTable

/-- The number of parents given to names that are not yet visited. -/
def parentsAhead (visited : List String) (ps : List (String × List String)) : Nat :=
  match ps with
  | [] => 0
  | (child, parents) :: rest =>
      (if visited.contains child then 0 else parents.length) + parentsAhead visited rest

/-- One name more that is visited leaves no more parents ahead. -/
theorem parentsAhead_cons_le (name : String) (visited : List String)
    (ps : List (String × List String)) :
    parentsAhead (name :: visited) ps ≤ parentsAhead visited ps := by
  induction ps with
  | nil => exact Nat.le_refl 0
  | cons p ps ih =>
      obtain ⟨child, parents⟩ := p
      unfold parentsAhead
      by_cases h : child ∈ visited
      · simp [h, ih]
      · by_cases he : child = name
        · simp [he]
          omega
        · simp [h, he, ih]

/-- Visiting a name for the first time takes its parents from those ahead. -/
theorem parentsAhead_visit {name : String} {visited : List String} (h : name ∉ visited)
    (ps : List (String × List String)) :
    ((ps.lookup name).getD []).length + parentsAhead (name :: visited) ps
      ≤ parentsAhead visited ps := by
  induction ps with
  | nil => exact Nat.le_refl 0
  | cons p ps ih =>
      obtain ⟨child, parents⟩ := p
      unfold parentsAhead
      by_cases he : name = child
      · subst he
        have := parentsAhead_cons_le name visited ps
        simp [h]
        omega
      · have hb : (name == child) = false := by simpa using he
        have hc : ¬ child = name := fun e => he e.symm
        simp only [List.lookup_cons, hb]
        by_cases hv : child ∈ visited
        · simpa [hv] using ih
        · simp [hv, hc]
          omega

/-- The names that a walk visits for the first time, in order. -/
def walk (t : ParentTable) (visited queue : List String) : List String :=
  match queue with
  | [] => []
  | name :: rest =>
      if h : name ∈ visited then t.walk visited rest
      else
        have := parentsAhead_visit h t.entries
        name :: t.walk (name :: visited) (rest ++ t.parentsOf name)
termination_by queue.length + parentsAhead visited t.entries
decreasing_by
  · simp
  · simp only [List.length_append, List.length_cons, ParentTable.parentsOf, Keyed.get?]
    omega

/-- The ancestors of an interface, nearest generation first. -/
def ancestors (t : ParentTable) (name : String) : List String :=
  t.walk [name] (t.parentsOf name)

/-- The given names and all their ancestors. -/
def closure (t : ParentTable) (names : List String) : List String := t.walk [] names

end ParentTable

namespace Document

/-- The own entries of an interface, then those of its ancestors in order. -/
def entriesAlong (d : Document) (name : String) : List Entry :=
  (name :: d.parents.ancestors name).flatMap d.entries.entriesOf

/-- The entries of an interface with those it inherits: of entries with one name, the one
that comes first along the ancestors. -/
def mergedEntries (d : Document) (name : String) : List Entry :=
  firsts Entry.name (d.entriesAlong name)

end Document

end Bindery
