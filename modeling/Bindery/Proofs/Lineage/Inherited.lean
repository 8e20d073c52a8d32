import Bindery.Proofs.Lineage.LevelOrder
import Mathlib.Data.List.Basic

/-!
# Inherited entries

What an interface has with what it inherits, said for each name of an entry: the names are
those that are declared by the interface or by an interface reached from it, each has one
entry, and that is the first one that its provider declares under it (`IsInherited`).  The
provider is the first interface that declares the name, going from the interface itself
along its ancestors; so an own entry comes before any inherited one, and a nearer ancestor
before a farther one.

The headline is `isInherited_iff`.
-/

namespace Bindery.Document

variable {d : Document} {name n : String} {e : Entry} {i j : String}

/-! ## Providers -/

/-- The names of the own entries of an interface. -/
def declared (d : Document) (interface : String) : List String :=
  (d.entries.entriesOf interface).map Entry.name

/-- The first own entry of an interface with a name. -/
def firstOwn? (d : Document) (interface n : String) : Option Entry :=
  (d.entries.entriesOf interface).find? fun e => e.name == n

/-- The interface and its ancestors. -/
def lineage (d : Document) (name : String) : List String := name :: d.parents.ancestors name

/-- The first interface of the lineage that declares a name. -/
def provider? (d : Document) (name n : String) : Option String :=
  (d.lineage name).find? fun i => (d.declared i).contains n

/-- Along the lineage the names of entries stand as they are declared. -/
theorem map_name_entriesAlong (d : Document) (name : String) :
    (d.entriesAlong name).map Entry.name = (d.lineage name).flatMap d.declared :=
  List.map_flatMap

/-- An interface has an own entry of a name if it declares the name. -/
theorem firstOwn?_eq_none (h : n ∉ d.declared i) : d.firstOwn? i n = none := by
  rw [firstOwn?, List.find?_eq_none]
  intro e he hname
  exact h (List.mem_map.mpr ⟨e, he, by simpa using hname⟩)

/-- A name that an interface declares has a first entry there. -/
theorem exists_firstOwn? (h : n ∈ d.declared i) : ∃ e, d.firstOwn? i n = some e := by
  obtain ⟨e, he, hname⟩ := List.mem_map.mp h
  rw [← Option.isSome_iff_exists, firstOwn?, List.find?_isSome]
  exact ⟨e, he, by simpa using hname⟩

/-- The first entry of a name along a listing of interfaces is the first own entry of the
first interface that declares the name. -/
theorem find?_flatMap_entriesOf (d : Document) (n : String) (listing : List String) :
    (listing.flatMap d.entries.entriesOf).find? (fun e => e.name == n)
      = (listing.find? fun i => (d.declared i).contains n).bind fun i => d.firstOwn? i n := by
  induction listing with
  | nil => rfl
  | cons i listing ih =>
      rw [List.flatMap_cons, List.find?_append, ih]
      by_cases hdeclared : n ∈ d.declared i
      · obtain ⟨e, he⟩ := exists_firstOwn? hdeclared
        rw [List.find?_cons_of_pos (by simpa using hdeclared), Option.bind_some, he]
        rw [firstOwn?] at he
        rw [he]
        rfl
      · rw [List.find?_cons_of_neg (by simpa using hdeclared)]
        have hnone := firstOwn?_eq_none hdeclared
        rw [firstOwn?] at hnone
        rw [hnone]
        rfl

/-- An entry is kept if its provider declares it first. -/
theorem mem_mergedEntries_iff :
    e ∈ d.mergedEntries name
      ↔ ∃ i, d.provider? name e.name = some i ∧ d.firstOwn? i e.name = some e := by
  rw [mergedEntries, mem_firsts_iff, entriesAlong, find?_flatMap_entriesOf,
    Option.bind_eq_some_iff]
  rfl

/-- A name has a provider if an interface that is reached declares it. -/
theorem exists_provider_iff :
    (∃ i, d.provider? name n = some i)
      ↔ ∃ k i, d.parents.Climb name k i ∧ n ∈ d.declared i := by
  rw [← Option.isSome_iff_exists, provider?, List.find?_isSome]
  constructor
  · rintro ⟨i, hi, hn⟩
    obtain ⟨k, hk⟩ := ParentTable.climb_of_mem hi
    exact ⟨k, i, hk, by simpa using hn⟩
  · rintro ⟨k, i, hk, hn⟩
    exact ⟨i, ParentTable.mem_of_climb hk, by simpa using hn⟩

/-- An interface that declares a name provides it for itself. -/
theorem provider?_of_declared (h : n ∈ d.declared name) : d.provider? name n = some name :=
  List.find?_cons_of_pos (by simpa using h)

/-- No interface that declares a name is nearer than the provider of that name. -/
theorem distance_le_of_provider {k m : Nat} (hi : d.provider? name n = some i)
    (hk : d.parents.Distance name i k) (hj : n ∈ d.declared j)
    (hm : d.parents.Distance name j m) : k ≤ m := by
  refine ParentTable.distance_le_of_idxOf_le hm hk ?_
  obtain ⟨hn, before, after, hsplit, hbefore⟩ := List.find?_eq_some_iff_append.mp hi
  have hjbefore : j ∉ before := by
    intro hmem
    have := hbefore j hmem
    simp [hj] at this
  have hle : (d.lineage name).idxOf i ≤ before.length := by
    rw [hsplit]
    by_cases hmem : i ∈ before
    · rw [List.idxOf_append_of_mem hmem]
      exact Nat.le_of_lt (List.idxOf_lt_length_of_mem hmem)
    · rw [List.idxOf_append_of_notMem hmem, List.idxOf_cons_self]
      omega
  have hge : before.length ≤ (d.lineage name).idxOf j := by
    rw [hsplit, List.idxOf_append_of_notMem hjbefore]
    omega
  exact Nat.le_trans hle hge

/-! ## The headline -/

/-- What an interface has with what it inherits. -/
structure IsInherited (d : Document) (name : String) (merged : List Entry) : Prop where
  /-- Each name has one entry. -/
  nodup : (merged.map Entry.name).Nodup
  /-- The names are those that the interface or an interface reached from it declares. -/
  names_iff : ∀ n, n ∈ merged.map Entry.name
    ↔ ∃ k i, d.parents.Climb name k i ∧ n ∈ d.declared i
  /-- Each entry is the first one of its name that its provider declares. -/
  provided : ∀ e ∈ merged, ∃ i, d.provider? name e.name = some i
    ∧ d.firstOwn? i e.name = some e
  /-- Own entries win. -/
  own : ∀ e ∈ merged, e.name ∈ d.declared name → d.firstOwn? name e.name = some e
  /-- Nearer interfaces win. -/
  nearest : ∀ e ∈ merged, ∀ i k, d.provider? name e.name = some i →
    d.parents.Distance name i k →
    ∀ j m, d.parents.Distance name j m → e.name ∈ d.declared j → k ≤ m
  /-- Entries stand in the order of their providers, and in the order of declaration if they
  have one provider. -/
  ordered : merged.Pairwise fun e f => GivenBefore d.declared (d.lineage name) e.name f.name

/-- The merged entries are in the order of the providers, each the first its provider declares. -/
theorem isInherited_mergedEntries (d : Document) (name : String) :
    d.IsInherited name (d.mergedEntries name) := by
  -- In the order of the definition: one entry a name, all names, from the provider, own entries
  -- first, nearest first, and in the order given.
  refine ⟨nodup_firsts _ _, ?_, ?_, ?_, ?_, ?_⟩
  · intro n
    rw [mergedEntries, mem_names_firsts, map_name_entriesAlong, ← exists_provider_iff,
      ← Option.isSome_iff_exists, provider?, List.find?_isSome, List.mem_flatMap]
    simp
  · intro e he
    exact mem_mergedEntries_iff.mp he
  · intro e he hown
    obtain ⟨i, hi, hentry⟩ := mem_mergedEntries_iff.mp he
    obtain rfl : name = i := Option.some.inj ((provider?_of_declared hown).symm.trans hi)
    exact hentry
  · intro e _ i k hi hk j m hm hj
    exact distance_le_of_provider hi hk hj hm
  · refine (pairwise_firstsBeside Entry.name [] (d.entriesAlong name)).imp_of_mem ?_
    intro e f he _ hlt
    have hmem : e.name ∈ (d.entriesAlong name).map Entry.name :=
      List.mem_map_of_mem ((firsts_sublist _ _).subset he)
    rw [map_name_entriesAlong] at hlt hmem
    exact givenBefore_of_idxOf_lt hmem hlt

namespace IsInherited

variable {merged merged' : List Entry}

/-- Entries are told by their names. -/
theorem mem_of_mem (h : d.IsInherited name merged) (h' : d.IsInherited name merged')
    (he : e ∈ merged) : e ∈ merged' := by
  have hname := (h'.names_iff e.name).mpr ((h.names_iff e.name).mp (List.mem_map_of_mem he))
  obtain ⟨f, hf, hfe⟩ := List.mem_map.mp hname
  obtain ⟨i, hi, hentry⟩ := h.provided e he
  obtain ⟨j, hj, hentry'⟩ := h'.provided f hf
  rw [hfe] at hj hentry'
  obtain rfl : i = j := Option.some.inj (hi.symm.trans hj)
  obtain rfl : e = f := Option.some.inj (hentry.symm.trans hentry')
  exact hf

/-- No other entries are. -/
theorem unique (h : d.IsInherited name merged) (h' : d.IsInherited name merged') :
    merged = merged' := by
  refine List.Perm.eq_of_pairwise ?_ h.ordered h'.ordered ?_
  · intro e f _ _ hef hfe
    exact absurd hfe hef.asymm
  · rw [List.perm_ext_iff_of_nodup h.nodup.of_map h'.nodup.of_map]
    intro e
    exact ⟨h.mem_of_mem h', h'.mem_of_mem h⟩

end IsInherited

/-- **INHERITANCE**: the merged entries of an interface are what it has with what it
inherits, and no other list is. -/
theorem isInherited_iff (d : Document) (name : String) (merged : List Entry) :
    d.IsInherited name merged ↔ merged = d.mergedEntries name := by
  constructor
  · intro h
    exact h.unique (isInherited_mergedEntries d name)
  · rintro rfl
    exact isInherited_mergedEntries d name

end Bindery.Document
