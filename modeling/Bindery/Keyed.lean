/-!
# Keyed tables

A table from names to values that remembers the order in which names first came up.
The names are distinct, and this is part of the type: every operation below keeps it, so
no user of a table has to.

The view of a table is its list of entries. `upsert` is the one way in which an entry is
written: an existing name keeps its place, a new one goes to the end (`keys_upsert`).
-/

namespace Bindery

/-! ## Lists of pairs -/

section Pairs

variable {α : Type}

/-- Writes `f` of the old value under a name: in place if the name is there, else at the
end. -/
def upsertPair (k : String) (f : Option α → α) : List (String × α) → List (String × α)
  | [] => [(k, f none)]
  | (k', v) :: rest =>
      if k' = k then (k', f (some v)) :: rest else (k', v) :: upsertPair k f rest

/-- Writes a value under a name, keeping the place of a name that is there. -/
def putPair (ps : List (String × α)) (p : String × α) : List (String × α) :=
  upsertPair p.1 (fun _ => p.2) ps

/-- A key that is there keeps its place, and a new one comes last. -/
theorem map_fst_upsertPair (k : String) (f : Option α → α) (ps : List (String × α)) :
    (upsertPair k f ps).map Prod.fst
      = if k ∈ ps.map Prod.fst then ps.map Prod.fst else ps.map Prod.fst ++ [k] := by
  induction ps with
  | nil => simp [upsertPair]
  | cons p ps ih =>
      obtain ⟨k', v⟩ := p
      rw [upsertPair]
      by_cases h : k' = k
      · simp [h]
      · have h' : ¬ k = k' := fun e => h e.symm
        simp only [if_neg h, List.map_cons, List.mem_cons, h', false_or, ih]
        split <;> simp

/-- So the keys stay distinct. -/
theorem nodup_upsertPair (k : String) (f : Option α → α) {ps : List (String × α)}
    (h : (ps.map Prod.fst).Nodup) : ((upsertPair k f ps).map Prod.fst).Nodup := by
  rw [map_fst_upsertPair]
  split
  · exact h
  · next hk =>
    rw [List.nodup_append]
    refine ⟨h, by simp, ?_⟩
    intro a ha b hb he
    simp only [List.mem_singleton] at hb
    subst hb
    exact hk (he ▸ ha)

theorem nodup_filterPairs (p : String → Bool) {ps : List (String × α)}
    (h : (ps.map Prod.fst).Nodup) : ((ps.filter fun e => p e.1).map Prod.fst).Nodup :=
  List.Nodup.sublist ((List.filter_sublist).map Prod.fst) h

end Pairs

/-! ## Tables -/

/-- An ordered table with distinct names. -/
structure Keyed (α : Type) where
  entries : List (String × α)
  nodup : (entries.map Prod.fst).Nodup

namespace Keyed

variable {α : Type}

/-- The table without entries. -/
def empty : Keyed α := ⟨[], by simp⟩

instance : Inhabited (Keyed α) := ⟨empty⟩

/-- The names in order. -/
def keys (t : Keyed α) : List String := t.entries.map Prod.fst

/-- The number of entries. -/
def size (t : Keyed α) : Nat := t.entries.length

/-- The value under a name. -/
def get? (t : Keyed α) (k : String) : Option α := t.entries.lookup k

/-- Whether a name has an entry. -/
def has (t : Keyed α) (k : String) : Bool := t.entries.any fun e => e.1 == k

/-- Writes `f` of the old value under a name. -/
def upsert (t : Keyed α) (k : String) (f : Option α → α) : Keyed α :=
  ⟨upsertPair k f t.entries, nodup_upsertPair k f t.nodup⟩

/-- Writes a value under a name; a name that is there keeps its place. -/
def put (t : Keyed α) (k : String) (v : α) : Keyed α := t.upsert k fun _ => v

/-- Keeps the entries whose names pass a test. -/
def keep (t : Keyed α) (p : String → Bool) : Keyed α :=
  ⟨t.entries.filter fun e => p e.1, nodup_filterPairs p t.nodup⟩

/-- Changes every value and leaves the names as they are. -/
def mapValues {β : Type} (t : Keyed α) (f : α → β) : Keyed β :=
  ⟨t.entries.map fun e => (e.1, f e.2), by rw [List.map_map]; exact t.nodup⟩

/-- The table that results from writing pairs one after the other. -/
def ofPairs (ps : List (String × α)) : Keyed α := ps.foldl (fun t p => t.put p.1 p.2) empty

@[ext] theorem ext {s t : Keyed α} (h : s.entries = t.entries) : s = t := by
  cases s; cases t; cases h; rfl

@[simp] theorem entries_empty : (empty : Keyed α).entries = [] := rfl

@[simp] theorem entries_upsert (t : Keyed α) (k : String) (f : Option α → α) :
    (t.upsert k f).entries = upsertPair k f t.entries := rfl

@[simp] theorem entries_put (t : Keyed α) (k : String) (v : α) :
    (t.put k v).entries = putPair t.entries (k, v) := rfl

@[simp] theorem entries_keep (t : Keyed α) (p : String → Bool) :
    (t.keep p).entries = t.entries.filter fun e => p e.1 := rfl

@[simp] theorem entries_mapValues {β : Type} (t : Keyed α) (f : α → β) :
    (t.mapValues f).entries = t.entries.map fun e => (e.1, f e.2) := rfl

/-- Changing the values leaves the keys, and their order. -/
@[simp] theorem keys_mapValues {β : Type} (t : Keyed α) (f : α → β) :
    (t.mapValues f).keys = t.keys := by
  rw [keys, entries_mapValues, List.map_map]
  rfl

/-- A key that is there keeps its place, and a new one comes last. -/
theorem keys_upsert (t : Keyed α) (k : String) (f : Option α → α) :
    (t.upsert k f).keys = if k ∈ t.keys then t.keys else t.keys ++ [k] :=
  map_fst_upsertPair k f t.entries

end Keyed

end Bindery
