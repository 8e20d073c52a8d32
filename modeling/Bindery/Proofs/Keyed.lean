import Bindery.Keyed
import Mathlib.Data.List.Forall2
import Mathlib.Data.List.Nodup

/-!
# Writing into tables

Properties of all values survive writing (`forall_upsertPair`).  Pairs with distinct names
that are written one after the other come out as they went in (`foldl_putPair_of_nodup`):
that is the one case in which nothing is overwritten.

What is found under a name is told for each operation on tables (`get?_upsert`, `get?_keep`).
-/

namespace Bindery

section Pairs

variable {α : Type}

/-- What holds of the pairs before writing, and of what is written under the name, holds
afterwards. -/
theorem forall_mem_upsertPair {P : String → α → Prop} {k : String} {f : Option α → α}
    {ps : List (String × α)} (hps : ∀ e ∈ ps, P e.1 e.2) (hnone : P k (f none))
    (hsome : ∀ v, P k v → P k (f (some v))) : ∀ e ∈ upsertPair k f ps, P e.1 e.2 := by
  induction ps with
  | nil =>
      intro e he
      rw [List.mem_singleton.mp he]
      exact hnone
  | cons p ps ih =>
      obtain ⟨k', v⟩ := p
      rw [List.forall_mem_cons] at hps
      rw [upsertPair]
      by_cases hk : k' = k
      · rw [if_pos hk, List.forall_mem_cons]
        subst hk
        exact ⟨hsome v hps.1, hps.2⟩
      · rw [if_neg hk, List.forall_mem_cons]
        exact ⟨hps.1, ih hps.2⟩

/-- What holds of the values before writing, and of what is written, holds afterwards. -/
theorem forall_upsertPair {P : α → Prop} {k : String} {f : Option α → α}
    {ps : List (String × α)} (hps : ∀ e ∈ ps, P e.2) (hnone : P (f none))
    (hsome : ∀ v, P v → P (f (some v))) : ∀ e ∈ upsertPair k f ps, P e.2 :=
  forall_mem_upsertPair (P := fun _ v => P v) hps hnone hsome

/-- A new name goes to the end. -/
theorem upsertPair_of_notMem {k : String} {f : Option α → α} {ps : List (String × α)}
    (h : k ∉ ps.map Prod.fst) : upsertPair k f ps = ps ++ [(k, f none)] := by
  induction ps with
  | nil => rfl
  | cons p ps ih =>
      obtain ⟨k', v⟩ := p
      rw [List.map_cons, List.mem_cons, not_or] at h
      have hne : ¬ k' = k := fun heq => h.1 heq.symm
      rw [upsertPair, if_neg hne, ih h.2]
      rfl

/-- Pairs with distinct names come out as they went in. -/
theorem foldl_putPair_of_nodup {done ps : List (String × α)}
    (h : ((done ++ ps).map Prod.fst).Nodup) : ps.foldl putPair done = done ++ ps := by
  induction ps generalizing done with
  | nil => simp
  | cons p ps ih =>
      have hp : p.1 ∉ done.map Prod.fst := by
        intro hmem
        rw [List.map_append, List.nodup_append] at h
        exact h.2.2 p.1 hmem p.1 (by simp) rfl
      have hput : putPair done p = done ++ [p] := upsertPair_of_notMem hp
      rw [List.foldl_cons, hput, ih (by simpa using h)]
      simp

/-- Under distinct names a value is found exactly under its name. -/
theorem lookup_eq_some_iff_mem {ps : List (String × α)} (h : (ps.map Prod.fst).Nodup)
    (k : String) (v : α) : ps.lookup k = some v ↔ (k, v) ∈ ps := by
  induction ps with
  | nil => simp
  | cons p ps ih =>
      obtain ⟨k', v'⟩ := p
      rw [List.map_cons, List.nodup_cons] at h
      by_cases hk : k = k'
      · rw [hk, List.lookup_cons_self, List.mem_cons]
        -- the pair in front is found, and no other pair has its name
        constructor
        · intro heq
          exact Or.inl (by rw [Option.some.inj heq])
        · rintro (heq | hmem)
          · rw [(Prod.mk.inj heq).2]
          · exact absurd (List.mem_map_of_mem (f := Prod.fst) hmem) h.1
      · have hne : (k == k') = false := beq_eq_false_iff_ne.mpr hk
        rw [List.lookup_cons, hne, List.mem_cons]
        constructor
        · intro hlookup
          exact Or.inr ((ih h.2).mp hlookup)
        · rintro (heq | hmem)
          · exact absurd (Prod.mk.inj heq).1 hk
          · exact (ih h.2).mpr hmem

/-- Dropping a name that no pair has changes nothing. -/
theorem filter_of_notMem {k : String} {ps : List (String × α)} (h : k ∉ ps.map Prod.fst) :
    ps.filter (fun e => e.1 != k) = ps := by
  rw [List.filter_eq_self]
  intro e he
  rw [bne_iff_ne]
  intro heq
  exact h (List.mem_map.mpr ⟨e, he, heq⟩)

/-- Pairs that are kept by their names are found as before. -/
theorem lookup_filter {κ : Type} [BEq κ] [LawfulBEq κ] (p : κ → Bool) (ps : List (κ × α))
    (k : κ) : (ps.filter fun e => p e.1).lookup k = if p k then ps.lookup k else none := by
  induction ps with
  | nil => simp
  | cons e rest ih =>
      obtain ⟨k', v⟩ := e
      by_cases hk : k = k'
      · rw [hk] at ih ⊢
        cases hp : p k' <;> simp [hp, ih]
      · have hne : (k == k') = false := beq_eq_false_iff_ne.mpr hk
        cases hp : p k' <;> simp [List.lookup_cons, hp, hne, ih]

/-- After writing, the name that was written has the new value and other names have the
value that they had. -/
theorem lookup_upsertPair (k : String) (f : Option α → α) (ps : List (String × α))
    (k' : String) :
    (upsertPair k f ps).lookup k' = if k' = k then some (f (ps.lookup k)) else ps.lookup k' := by
  induction ps with
  | nil =>
      by_cases hk : k' = k
      · rw [if_pos hk, hk, upsertPair, List.lookup_cons_self]
        rfl
      · rw [if_neg hk, upsertPair, List.lookup_cons, beq_eq_false_iff_ne.mpr hk]
  | cons p ps ih =>
      obtain ⟨k₀, v⟩ := p
      rw [upsertPair]
      by_cases h₀ : k₀ = k
      · -- the value stands here, and the names behind it are other names
        rw [if_pos h₀, h₀, List.lookup_cons_self, List.lookup_cons, List.lookup_cons]
        by_cases hk : k' = k
        · rw [if_pos hk, hk, beq_self_eq_true]
        · rw [if_neg hk, beq_eq_false_iff_ne.mpr hk]
      · have hne : (k == k₀) = false := beq_eq_false_iff_ne.mpr fun heq => h₀ heq.symm
        have hrest : List.lookup k ((k₀, v) :: ps) = List.lookup k ps := by
          rw [List.lookup_cons, hne]
        rw [if_neg h₀, hrest]
        by_cases hk : k' = k₀
        · rw [hk, List.lookup_cons_self, List.lookup_cons_self, if_neg h₀]
        · rw [List.lookup_cons, List.lookup_cons, beq_eq_false_iff_ne.mpr hk]
          exact ih

/-- Under distinct names at most one pair has a given name. -/
theorem filter_fst_eq (k : String) {ps : List (String × α)} (h : (ps.map Prod.fst).Nodup) :
    ps.filter (fun e => e.1 == k) = ((ps.lookup k).map fun v => (k, v)).toList := by
  induction ps with
  | nil => rfl
  | cons p ps ih =>
      obtain ⟨k', v⟩ := p
      rw [List.map_cons, List.nodup_cons] at h
      by_cases hk : k' = k
      · subst hk
        rw [List.filter_cons_of_pos (by simp), List.lookup_cons_self, Option.map_some,
          Option.toList_some]
        refine congrArg _ (List.filter_eq_nil_iff.mpr ?_)
        intro e he heq
        exact h.1 (List.mem_map.mpr ⟨e, he, by simpa using heq⟩)
      · rw [List.filter_cons_of_neg (by simpa using hk), List.lookup_cons,
          beq_eq_false_iff_ne.mpr fun heq => hk heq.symm]
        exact ih h.2

/-! ### Pairs written one after the other -/

/-- Every pair that is there afterwards was there before or was written. -/
theorem mem_of_mem_foldl_putPair {ps done : List (String × α)} {e : String × α}
    (h : e ∈ ps.foldl putPair done) : e ∈ done ∨ e ∈ ps := by
  induction ps generalizing done with
  | nil => exact Or.inl h
  | cons p ps ih =>
      have hput : ∀ e ∈ putPair done p, e ∈ done ∨ e ∈ p :: ps :=
        forall_mem_upsertPair (P := fun k v => (k, v) ∈ done ∨ (k, v) ∈ p :: ps)
          (fun e he => Or.inl he) (Or.inr List.mem_cons_self) fun _ _ => Or.inr List.mem_cons_self
      rcases ih h with hmem | hmem
      · exact hput e hmem
      · exact Or.inr (List.mem_cons_of_mem p hmem)

/-- However many pairs are put, keys stay distinct. -/
theorem nodup_foldl_putPair {done : List (String × α)} (h : (done.map Prod.fst).Nodup)
    (ps : List (String × α)) : ((ps.foldl putPair done).map Prod.fst).Nodup := by
  induction ps generalizing done with
  | nil => exact h
  | cons p ps ih => exact ih (nodup_upsertPair p.1 _ h)

/-- From behind, the first pair is found only if no other has its key. -/
theorem lookup_reverse_cons (p : String × α) (ps : List (String × α)) (k : String) :
    (p :: ps).reverse.lookup k
      = (ps.reverse.lookup k).or (if k = p.1 then some p.2 else none) := by
  rw [List.reverse_cons, List.lookup_append, List.lookup_cons, List.lookup_nil]
  by_cases h : k = p.1
  · rw [if_pos h, beq_iff_eq.mpr h]
  · rw [if_neg h, beq_eq_false_iff_ne.mpr h]

/-- Under a name stands the last value that was written. -/
theorem lookup_foldl_putPair (ps done : List (String × α)) (k : String) :
    (ps.foldl putPair done).lookup k = (ps.reverse.lookup k).or (done.lookup k) := by
  induction ps generalizing done with
  | nil => rfl
  | cons p ps ih =>
      rw [List.foldl_cons, ih, putPair, lookup_upsertPair, lookup_reverse_cons, Option.or_assoc]
      by_cases h : k = p.1
      · rw [if_pos h, if_pos h, Option.some_or]
      · rw [if_neg h, if_neg h, Option.none_or]

/-- The first value under a name is the last one if no name that passes a test comes twice. -/
theorem lookup_reverse (p : String → Bool) {ps : List (String × α)}
    (h : ((ps.filter fun e => p e.1).map Prod.fst).Nodup) {k : String} (hk : p k = true) :
    ps.reverse.lookup k = ps.lookup k := by
  have hreverse : (((ps.filter fun e => p e.1).reverse).map Prod.fst).Nodup := by
    rwa [List.map_reverse, List.nodup_reverse]
  have hfront : (ps.filter fun e => p e.1).lookup k = ps.lookup k := by
    rw [lookup_filter, if_pos hk]
  have hback : ((ps.filter fun e => p e.1).reverse).lookup k = ps.reverse.lookup k := by
    rw [← List.filter_reverse, lookup_filter, if_pos hk]
  rw [← hfront, ← hback]
  refine Option.ext fun v => ?_
  rw [lookup_eq_some_iff_mem hreverse, lookup_eq_some_iff_mem h, List.mem_reverse]

/-- Putting a pair and keeping some keys can be done in either order. -/
theorem filter_putPair (p : String → Bool) (done : List (String × α)) (e : String × α) :
    (putPair done e).filter (fun e => p e.1)
      = if p e.1 then putPair (done.filter fun e => p e.1) e else done.filter fun e => p e.1 := by
  induction done with
  | nil =>
      rw [putPair, upsertPair, List.filter_cons]
      rfl
  | cons d done ih =>
      obtain ⟨k, v⟩ := d
      rw [putPair] at ih ⊢
      rw [upsertPair]
      -- A pair that is put keeps its place or goes to the end, and filtering moves neither.
      by_cases hk : k = e.1
      · rw [if_pos hk, List.filter_cons, List.filter_cons, hk]
        by_cases hp : p e.1 = true
        · rw [if_pos hp, if_pos hp, if_pos hp, putPair, upsertPair, if_pos rfl]
        · rw [if_neg hp, if_neg hp, if_neg hp]
      · rw [if_neg hk, List.filter_cons, List.filter_cons, ih]
        by_cases hp : p k = true
        · rw [if_pos hp, if_pos hp]
          by_cases he : p e.1 = true
          · rw [if_pos he, if_pos he, putPair, putPair, upsertPair, if_neg hk]
          · rw [if_neg he, if_neg he]
        · rw [if_neg hp, if_neg hp]

/-- Names may be dropped before writing. -/
theorem filter_foldl_putPair (p : String → Bool) (ps done : List (String × α)) :
    (ps.foldl putPair done).filter (fun e => p e.1)
      = (ps.filter fun e => p e.1).foldl putPair (done.filter fun e => p e.1) := by
  induction ps generalizing done with
  | nil => rfl
  | cons e ps ih =>
      rw [List.foldl_cons, ih, filter_putPair, List.filter_cons]
      by_cases he : p e.1 = true
      · rw [if_pos he, if_pos he, List.foldl_cons]
      · rw [if_neg he, if_neg he]

/-- Values that correspond to each other still do after writing. -/
theorem forall₂_foldl_putPair {β : Type} {R : α → β → Prop} {ps done : List (String × α)}
    {qs done' : List (String × β)}
    (hdone : List.Forall₂ (fun p q => p.1 = q.1 ∧ R p.2 q.2) done done')
    (h : List.Forall₂ (fun p q => p.1 = q.1 ∧ R p.2 q.2) ps qs) :
    List.Forall₂ (fun p q => p.1 = q.1 ∧ R p.2 q.2) (ps.foldl putPair done)
      (qs.foldl putPair done') := by
  have hput : ∀ {done : List (String × α)} {done' : List (String × β)} {p : String × α}
      {q : String × β}, List.Forall₂ (fun p q => p.1 = q.1 ∧ R p.2 q.2) done done' →
      (p.1 = q.1 ∧ R p.2 q.2) →
      List.Forall₂ (fun p q => p.1 = q.1 ∧ R p.2 q.2) (putPair done p) (putPair done' q) := by
    intro done done' p q hdone hpq
    induction hdone with
    | nil => exact .cons hpq .nil
    | cons hhead htail ih =>
        rw [putPair, putPair, upsertPair, upsertPair, hhead.1, hpq.1]
        split
        · exact .cons ⟨rfl, hpq.2⟩ htail
        · refine .cons ⟨rfl, hhead.2⟩ ?_
          rw [putPair, putPair, hpq.1] at ih
          exact ih
  induction h generalizing done done' with
  | nil => exact hdone
  | cons hhead _ ih => exact ih (hput hdone hhead)

end Pairs

namespace Keyed

variable {α : Type}

/-- The entries of a table into which pairs were written. -/
theorem entries_foldl_put (ps : List (String × α)) (t : Keyed α) :
    (ps.foldl (fun t e => t.put e.1 e.2) t).entries = ps.foldl putPair t.entries := by
  induction ps generalizing t with
  | nil => rfl
  | cons p ps ih =>
      rw [List.foldl_cons, List.foldl_cons, ih]
      rfl

/-- A table has the keys that it lists. -/
theorem has_iff (t : Keyed α) (k : String) : t.has k = true ↔ k ∈ t.keys := by
  simp [has, keys]

/-- A table is rebuilt from its entries. -/
theorem foldl_put_entries (t : Keyed α) :
    t.entries.foldl (fun t e => t.put e.1 e.2) empty = t := by
  apply Keyed.ext
  rw [entries_foldl_put]
  exact foldl_putPair_of_nodup t.nodup

/-- What is found under a key is what was put there last. -/
theorem get?_upsert (t : Keyed α) (k : String) (f : Option α → α) (k' : String) :
    (t.upsert k f).get? k' = if k' = k then some (f (t.get? k)) else t.get? k' :=
  lookup_upsertPair k f t.entries k'

/-- A key that is not kept is not found. -/
theorem get?_keep (t : Keyed α) (p : String → Bool) (k : String) :
    (t.keep p).get? k = if p k then t.get? k else none :=
  lookup_filter p t.entries k

/-- With distinct keys what is found is what the table lists. -/
theorem get?_eq_some_iff (t : Keyed α) (k : String) (v : α) :
    t.get? k = some v ↔ (k, v) ∈ t.entries :=
  lookup_eq_some_iff_mem t.nodup k v

theorem get?_eq_none_iff (t : Keyed α) (k : String) : t.get? k = none ↔ k ∉ t.keys := by
  rw [get?, List.lookup_eq_none_iff, keys, List.mem_map]
  constructor
  · rintro h ⟨e, he, rfl⟩
    simpa using h e he
  · intro h e he
    rw [bne_iff_ne]
    intro heq
    exact h ⟨e, he, heq.symm⟩

theorem keys_keep (t : Keyed α) (p : String → Bool) : (t.keep p).keys = t.keys.filter p := by
  rw [keys, keys, List.filter_map]
  rfl

/-- Of two tests one after the other the narrower one is enough. -/
theorem keep_keep (t : Keyed α) {p q : String → Bool} (h : ∀ k, q k = true → p k = true) :
    (t.keep p).keep q = t.keep q := by
  apply Keyed.ext
  rw [entries_keep, entries_keep, entries_keep, List.filter_filter]
  refine List.filter_congr fun e _ => ?_
  rw [Bool.and_eq_left_iff_imp]
  exact h e.1

end Keyed

end Bindery
