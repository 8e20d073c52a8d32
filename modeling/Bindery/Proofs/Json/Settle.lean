import Bindery.Json.Reader
import Bindery.Proofs.Keyed

/-!
# Settled values

Settling a tree leaves no repeated key behind, at any depth (`distinct_settle`), and does
nothing to a tree without repeated keys (`settle_of_distinct`). So whatever is read from
a text as a value has distinct keys (`distinct_of_ofText`).
-/

namespace Bindery.Json

/-- No item repeats a key if none of them does. -/
theorem distinctItems_iff (items : List Json) :
    DistinctItems items ↔ ∀ item ∈ items, item.Distinct := by
  induction items with
  | nil => simp [DistinctItems]
  | cons item rest ih => simp [DistinctItems, ih]

/-- No member repeats a key inside if none of the values does. -/
theorem distinctMembers_iff (ms : List (String × Json)) :
    DistinctMembers ms ↔ ∀ m ∈ ms, m.2.Distinct := by
  induction ms with
  | nil => simp [DistinctMembers]
  | cons m rest ih =>
      obtain ⟨key, value⟩ := m
      simp [DistinctMembers, ih]

/-- An object has distinct keys all the way down. -/
theorem distinct_object_iff (ms : List (String × Json)) :
    (Json.object ms).Distinct ↔ (ms.map Prod.fst).Nodup ∧ ∀ m ∈ ms, m.2.Distinct := by
  rw [Distinct, distinctMembers_iff]

/-- A list has distinct keys all the way down. -/
theorem distinct_array_iff (items : List Json) :
    (Json.array items).Distinct ↔ ∀ item ∈ items, item.Distinct := by
  rw [Distinct, distinctItems_iff]

/-- Writing a member keeps the keys of an object distinct, inside as well. -/
theorem distinct_putPair {done : List (String × Json)} {key : String} {value : Json}
    (hdone : (Json.object done).Distinct) (hvalue : value.Distinct) :
    (Json.object (putPair done (key, value))).Distinct := by
  rw [distinct_object_iff] at hdone ⊢
  exact ⟨nodup_upsertPair key _ hdone.1,
    forall_upsertPair hdone.2 hvalue fun _ _ => hvalue⟩

mutual

/-- **SETTLING**: a settled value has distinct keys at every depth. -/
theorem distinct_settle : ∀ j : Json, j.settle.Distinct
  | .array items => by
      rw [settle, Distinct]
      exact distinctItems_settleItems items
  | .object ms => by
      rw [settle]
      exact distinct_settleMembers ms [] (by simp [distinct_object_iff])
  | .null => trivial
  | .boolean _ => trivial
  | .number _ => trivial
  | .string _ => trivial

/-- Settled items have distinct keys. -/
theorem distinctItems_settleItems : ∀ items : List Json, DistinctItems (settleItems items)
  | [] => trivial
  | item :: rest => ⟨distinct_settle item, distinctItems_settleItems rest⟩

/-- Settling members into an object keeps its keys distinct. -/
theorem distinct_settleMembers : ∀ (ms done : List (String × Json)),
    (Json.object done).Distinct → (Json.object (settleMembers done ms)).Distinct
  | [], done, h => by
      rw [settleMembers]
      exact h
  | (key, value) :: rest, done, h => by
      rw [settleMembers]
      exact distinct_settleMembers rest _ (distinct_putPair h (distinct_settle value))

end

theorem settleItems_eq_map (items : List Json) : settleItems items = items.map settle := by
  induction items with
  | nil => rfl
  | cons item rest ih => rw [settleItems, List.map_cons, ih]

/-- A member with a settled value. -/
def settledMember (m : String × Json) : String × Json := (m.1, m.2.settle)

/-- Settling members is writing them one after the other with settled values. -/
theorem settleMembers_eq (done ms : List (String × Json)) :
    settleMembers done ms = (ms.map settledMember).foldl putPair done := by
  induction ms generalizing done with
  | nil => rw [settleMembers, List.map_nil, List.foldl_nil]
  | cons m rest ih =>
      obtain ⟨key, value⟩ := m
      rw [settleMembers, ih, List.map_cons, List.foldl_cons, settledMember]

/-- Settling members whose values are settled is writing them one after the other. -/
theorem settleMembers_eq_foldl {ms : List (String × Json)}
    (h : ∀ m ∈ ms, m.2.settle = m.2) (done : List (String × Json)) :
    settleMembers done ms = ms.foldl putPair done := by
  have hms : ms.map settledMember = ms := by
    rw [List.map_congr_left (g := id), List.map_id]
    intro m hm
    rw [settledMember, h m hm, id_eq]
  rw [settleMembers_eq, hms]

mutual

/-- A value with distinct keys is settled. -/
theorem settle_of_distinct : ∀ j : Json, j.Distinct → j.settle = j
  | .array items, h => by
      rw [settle, settleItems_of_distinct items ((distinct_array_iff items).mp h)]
  | .object ms, h => by
      obtain ⟨hkeys, hvalues⟩ := (distinct_object_iff ms).mp h
      rw [settle, settleMembers_eq_foldl (settle_values_of_distinct ms hvalues),
        foldl_putPair_of_nodup hkeys]
      rfl
  | .null, _ => rfl
  | .boolean _, _ => rfl
  | .number _, _ => rfl
  | .string _, _ => rfl

/-- Items with distinct keys are settled. -/
theorem settleItems_of_distinct : ∀ items : List Json,
    (∀ item ∈ items, item.Distinct) → settleItems items = items
  | [], _ => rfl
  | item :: rest, h => by
      rw [List.forall_mem_cons] at h
      rw [settleItems, settle_of_distinct item h.1, settleItems_of_distinct rest h.2]

/-- The values of members are settled if their keys are distinct. -/
theorem settle_values_of_distinct : ∀ ms : List (String × Json),
    (∀ m ∈ ms, m.2.Distinct) → ∀ m ∈ ms, m.2.settle = m.2
  | [], _ => by simp
  | (key, value) :: rest, h => by
      rw [List.forall_mem_cons] at h ⊢
      exact ⟨settle_of_distinct value h.1, settle_values_of_distinct rest h.2⟩

end

/-- What is read from a text has distinct keys. -/
theorem distinct_of_ofText {text : String} {j : Json} (h : ofText text = .ok j) :
    j.Distinct := by
  rw [ofText] at h
  cases hread : readTree text.toList with
  | error s =>
      rw [hread] at h
      cases h
  | ok tree =>
      rw [hread] at h
      rw [← Except.ok.inj h]
      exact distinct_settle tree

end Bindery.Json
