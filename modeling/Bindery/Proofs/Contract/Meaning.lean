import Bindery.Contract.Check

/-!
# What the contract asks for

The contract is checked by a walk that lists violations.  Here it is said as a property of
values (`IsDocument`, and `IsEntry`, `IsParameter` and `IsParentTable` inside it), and the
walk is shown to find nothing exactly on the values that have it (`check_eq_nil_iff`).

From the leaves up: what a form admits (`fault?_eq_none_iff`), then the fields of a
record, then records, lists of them and the whole value.
-/

namespace Bindery.Contract

/-! ## Forms -/

/-- The values that a form admits. -/
def Form.Admits : Form → Json → Prop
  | .text, v => ∃ s, v = .string s
  | .nonEmptyText, v => ∃ s, v = .string s ∧ s ≠ ""
  | .kind, v => ∃ s kind, v = .string s ∧ EntryKind.ofName? s = some kind
  | .flag, v => ∃ b, v = .boolean b
  | .count, v =>
      (∃ n : Nat, v = Json.ofNat n) ∨ ∃ d, v = .number (.real d) ∧ isCount d = true
  | .list, v => ∃ items, v = .array items

/-- No fault is found with the values that a form admits, and with no others. -/
theorem fault?_eq_none_iff (field : String) (form : Form) (v : Json) :
    form.fault? field v = none ↔ form.Admits v := by
  cases form with
  | text => cases v <;> simp [Form.fault?, Form.Admits]
  | nonEmptyText => cases v <;> simp [Form.fault?, Form.Admits]
  | kind =>
      cases v with
      | string s => cases h : EntryKind.ofName? s <;> simp [Form.fault?, Form.Admits, h]
      | _ => simp [Form.fault?, Form.Admits]
  | flag => cases v <;> simp [Form.fault?, Form.Admits]
  | count =>
      cases v with
      | number n =>
          cases n with
          | integer i =>
              -- an integer is a count exactly when it is not negative
              constructor
              · intro h
                have hi : ¬ i < 0 := by simpa [Form.fault?] using h
                refine Or.inl ⟨i.toNat, ?_⟩
                rw [Json.ofNat, Int.toNat_of_nonneg (by omega)]
              · rintro (⟨n, hn⟩ | ⟨d, hd, -⟩)
                · obtain rfl : i = n := by simpa [Json.ofNat] using hn
                  simp [Form.fault?]
                · cases hd
          | real d => simp [Form.fault?, Form.Admits, Json.ofNat]
      | _ => simp [Form.fault?, Form.Admits, Json.ofNat]
  | list => cases v <;> simp [Form.fault?, Form.Admits]

/-! ## Fields -/

/-- The members include the given fields. -/
def HasFields (required : List String) (ms : List (String × Json)) : Prop :=
  ∀ field ∈ required, ∃ v, ms.lookup field = some v

/-- The known ones among the members have their forms. -/
def HasForms (forms : List FieldForm) (ms : List (String × Json)) : Prop :=
  ∀ f ∈ forms, ∀ v, ms.lookup f.name = some v → f.form.Admits v

/-- No field is reported missing exactly if all are there. -/
theorem missingFields_eq_nil_iff (place : Location) (required : List String)
    (ms : List (String × Json)) :
    missingFields place required ms = [] ↔ HasFields required ms := by
  rw [missingFields, List.map_eq_nil_iff, List.filter_eq_nil_iff]
  refine forall_congr' fun field => forall_congr' fun _ => ?_
  cases ms.lookup field <;> simp

/-- No field is reported at fault exactly if those that are there have their forms. -/
theorem faultyFields_eq_nil_iff (place : Location) (forms : List FieldForm)
    (ms : List (String × Json)) :
    faultyFields place forms ms = [] ↔ HasForms forms ms := by
  rw [faultyFields, List.filterMap_eq_nil_iff]
  refine forall_congr' fun f => forall_congr' fun _ => ?_
  cases ms.lookup f.name with
  | none => simp
  | some v =>
      rw [Option.map_eq_none_iff, fault?_eq_none_iff]
      simp

/-! ## Records and lists of them -/

/-- A parameter. -/
def IsParameter (j : Json) : Prop :=
  ∃ ms, j = .object ms ∧ HasFields parameterRequired ms ∧ HasForms parameterForms ms

/-- The parameters among the members of an entry. -/
def HasParameters (ms : List (String × Json)) : Prop :=
  ∀ items, ms.lookup "parameters" = some (.array items) → ∀ p ∈ items, IsParameter p

/-- An entry. -/
def IsEntry (j : Json) : Prop :=
  ∃ ms, j = .object ms ∧ HasFields (requiredFields ms) ms ∧ HasForms entryForms ms
    ∧ HasParameters ms

/-- The entries of an interface. -/
def AreEntries (j : Json) : Prop := ∃ items, j = .array items ∧ ∀ e ∈ items, IsEntry e

/-- The parents of an interface. -/
def AreParents (j : Json) : Prop :=
  ∃ items, j = .array items ∧ ∀ p ∈ items, ∃ s, p = .string s

/-- A table of parents. -/
def IsParentTable (j : Json) : Prop := ∃ ms, j = .object ms ∧ ∀ m ∈ ms, AreParents m.2

/-- A document. -/
def IsDocument (j : Json) : Prop :=
  ∃ ms, j = .object ms ∧
    ∀ m ∈ ms, (m.1 = parentsKey → IsParentTable m.2) ∧ (m.1 ≠ parentsKey → AreEntries m.2)

/-- What holds of every numbered item holds of every item. -/
theorem forall_mem_zipIdx_iff {α : Type} (P : α → Prop) (xs : List α) :
    (∀ p ∈ xs.zipIdx, P p.1) ↔ ∀ x ∈ xs, P x := by
  constructor
  · intro h x hx
    rw [← List.zipIdx_map_fst 0 xs] at hx
    obtain ⟨p, hp, rfl⟩ := List.mem_map.mp hx
    exact h p hp
  · intro h p hp
    exact h p.1 (List.fst_mem_of_mem_zipIdx hp)

/-- A parameter passes the walk exactly if it is one. -/
theorem parameterViolations_eq_nil_iff (place : Location) (j : Json) :
    parameterViolations place j = [] ↔ IsParameter j := by
  cases j with
  | object ms =>
      rw [parameterViolations, List.append_eq_nil_iff, missingFields_eq_nil_iff,
        faultyFields_eq_nil_iff]
      simp [IsParameter]
  | _ => simp [parameterViolations, IsParameter]

/-- The parameters of an entry pass exactly if there is a list of them. -/
theorem parametersViolations_eq_nil_iff (place : Location) (ms : List (String × Json)) :
    parametersViolations place ms = [] ↔ HasParameters ms := by
  rw [parametersViolations, HasParameters]
  split
  · next items hlookup =>
    simp only [List.flatMap_eq_nil_iff, parameterViolations_eq_nil_iff,
      forall_mem_zipIdx_iff IsParameter, hlookup, Option.some.injEq, Json.array.injEq,
      forall_eq']
  · next hother =>
    constructor
    · intro _ items hlookup
      exact absurd hlookup (hother items)
    · intro _
      rfl

/-- An entry passes exactly if it is one. -/
theorem entryViolations_eq_nil_iff (place : Location) (j : Json) :
    entryViolations place j = [] ↔ IsEntry j := by
  cases j with
  | object ms =>
      rw [entryViolations, List.append_eq_nil_iff, List.append_eq_nil_iff,
        missingFields_eq_nil_iff, faultyFields_eq_nil_iff, parametersViolations_eq_nil_iff]
      simp [IsEntry, and_assoc]
  | _ => simp [entryViolations, IsEntry]

/-- The value of an interface passes exactly if it lists entries. -/
theorem interfaceViolations_eq_nil_iff (interface : String) (j : Json) :
    interfaceViolations interface j = [] ↔ AreEntries j := by
  cases j with
  | array items =>
      rw [interfaceViolations, List.flatMap_eq_nil_iff]
      simp only [entryViolations_eq_nil_iff, forall_mem_zipIdx_iff IsEntry]
      simp [AreEntries]
  | _ => simp [interfaceViolations, AreEntries]

/-- The parents of a child pass exactly if they are texts. -/
theorem parentsViolations_eq_nil_iff (child : String) (j : Json) :
    parentsViolations child j = [] ↔ AreParents j := by
  cases j with
  | array items =>
      have hmeaning : AreParents (.array items) ↔ ∀ p ∈ items, ∃ s, p = .string s := by
        simp [AreParents]
      rw [parentsViolations, List.filterMap_eq_nil_iff, hmeaning,
        ← forall_mem_zipIdx_iff (fun p => ∃ s, p = Json.string s)]
      refine forall_congr' fun p => forall_congr' fun _ => ?_
      obtain ⟨v, n⟩ := p
      cases v <;> simp
  | _ => simp [parentsViolations, AreParents]

/-- The table of parents passes exactly if the parents of each child do. -/
theorem tableViolations_eq_nil_iff (j : Json) : tableViolations j = [] ↔ IsParentTable j := by
  cases j with
  | object ms =>
      rw [tableViolations, List.flatMap_eq_nil_iff]
      simp only [parentsViolations_eq_nil_iff]
      simp [IsParentTable]
  | _ => simp [tableViolations, IsParentTable]

/-- A member is walked over as what its key says it is. -/
theorem memberViolations_eq_nil_iff (key : String) (j : Json) :
    memberViolations key j = []
      ↔ (key = parentsKey → IsParentTable j) ∧ (key ≠ parentsKey → AreEntries j) := by
  rw [memberViolations]
  by_cases h : key = parentsKey
  · rw [if_pos h, tableViolations_eq_nil_iff]
    simp [h]
  · rw [if_neg h, interfaceViolations_eq_nil_iff]
    simp [h]

/-- **THE CONTRACT**: no violation is found exactly in the values that are documents. -/
theorem check_eq_nil_iff (j : Json) : check j = [] ↔ IsDocument j := by
  have hsort : check j = [] ↔ violations j = [] := by
    rw [check, ← List.length_eq_zero_iff, List.length_mergeSort, List.length_eq_zero_iff]
  rw [hsort]
  cases j with
  | object ms =>
      rw [violations, List.flatMap_eq_nil_iff]
      simp only [memberViolations_eq_nil_iff]
      simp [IsDocument]
  | _ => simp [violations, IsDocument]

end Bindery.Contract
