import Bindery.Proofs.Contract.Defect

/-!
# Faults and the forms that find them

The faults of fields, as they are said of values, are those that the forms of the fields
find (`parameterFault_iff`, `entryFault_iff`), and the fields that an entry must have are
those that the walk asks for (`requires_iff`).
-/

namespace Bindery.Contract

open Json Number

/-! ## Forms -/

section Forms

variable {field : String} {v : Json} {code : ViolationCode}

/-- The code of the fault that is found with a value of a form. -/
def Form.faultCode? (form : Form) (v : Json) : Option ViolationCode :=
  (form.fault? "" v).map Fault.code

/-- The code of a fault does not hang on the name of the field. -/
theorem map_code_fault? (form : Form) (field : String) (v : Json) :
    (form.fault? field v).map Fault.code = form.faultCode? v := by
  unfold Form.faultCode?
  fun_cases form.fault? field v <;> simp_all [Form.fault?, wrongType]

theorem faultCode?_text :
    Form.text.faultCode? v = some code ↔ ¬ v.IsText ∧ code = .wrongFieldType := by
  cases v <;> simp [Form.faultCode?, Form.fault?, wrongType, IsText, eq_comm]

theorem faultCode?_flag :
    Form.flag.faultCode? v = some code ↔ ¬ v.IsFlag ∧ code = .wrongFieldType := by
  cases v <;> simp [Form.faultCode?, Form.fault?, wrongType, IsFlag, eq_comm]

theorem faultCode?_list :
    Form.list.faultCode? v = some code ↔ ¬ v.IsArray ∧ code = .wrongFieldType := by
  cases v <;> simp [Form.faultCode?, Form.fault?, wrongType, IsArray, eq_comm]

/-- An empty name is at fault in another way than one that is no text. -/
theorem faultCode?_nonEmptyText :
    Form.nonEmptyText.faultCode? v = some code
      ↔ (v = .string "" ∧ code = .emptyName) ∨ (¬ v.IsText ∧ code = .wrongFieldType) := by
  cases v with
  | string s =>
      by_cases hs : s = "" <;> simp [Form.faultCode?, Form.fault?, IsText, hs, eq_comm]
  | _ => simp [Form.faultCode?, Form.fault?, wrongType, IsText, eq_comm]

/-- Three names of kinds are known. -/
theorem ofName?_eq_none_iff (s : String) :
    EntryKind.ofName? s = none ↔ s ∉ ["method", "property", "event"] := by
  have hnames : ["method", "property", "event"] = EntryKind.all.map EntryKind.name := rfl
  rw [EntryKind.ofName?, List.find?_eq_none, hnames]
  simp

/-- A kind that is not known is at fault in another way than one that is no text. -/
theorem faultCode?_kind :
    Form.kind.faultCode? v = some code
      ↔ (∃ s, v = .string s ∧ s ∉ ["method", "property", "event"] ∧ code = .unknownKind)
        ∨ (¬ v.IsText ∧ code = .wrongFieldType) := by
  cases v with
  | string s =>
      have hs := ofName?_eq_none_iff s
      cases hkind : EntryKind.ofName? s with
      | none =>
          rw [hkind] at hs
          have hother := hs.mp rfl
          simp only [Form.faultCode?, Form.fault?, hkind, Option.map_some, Option.some.injEq]
          constructor
          · rintro rfl
            exact Or.inl ⟨s, rfl, hother, rfl⟩
          · rintro (⟨_, -, -, rfl⟩ | ⟨htext, -⟩)
            · rfl
            · exact absurd trivial htext
      | some kind =>
          rw [hkind] at hs
          have hmem : s ∈ ["method", "property", "event"] := by
            by_contra hnot
            cases hs.mpr hnot
          simp only [Form.faultCode?, Form.fault?, hkind, Option.map_none]
          constructor
          · intro h
            cases h
          · rintro (⟨s', heq, hother, -⟩ | ⟨htext, -⟩)
            · rw [Json.string.inj heq] at hmem
              exact absurd hmem hother
            · exact absurd trivial htext
  | _ => simp [Form.faultCode?, Form.fault?, wrongType, IsText, eq_comm]

/-- A negative count is at fault in another way than one that is no integer. -/
theorem faultCode?_count :
    Form.count.faultCode? v = some code
      ↔ ¬ v.IsCount ∧ (v.IsInteger ∧ code = .negativeCount
        ∨ ¬ v.IsInteger ∧ code = .wrongFieldType) := by
  cases v with
  | number x =>
      cases x with
      | integer i =>
          -- an integer is a count unless it is negative
          have hcount : (Json.number (.integer i)).IsCount ↔ 0 ≤ i := by
            constructor
            · rintro ⟨n, hn⟩
              have : i = n := by exact_mod_cast (show (i : ℚ) = n from hn)
              omega
            · intro hi
              exact ⟨i.toNat, by
                show (i : ℚ) = i.toNat
                exact_mod_cast (Int.toNat_of_nonneg hi).symm⟩
          by_cases hi : i < 0 <;>
            simp [Form.faultCode?, Form.fault?, hcount, hi, IsInteger, eq_comm]
      | real d =>
          have hcount : (Json.number (.real d)).IsCount ↔ isCount d = true := (isCount_iff d).symm
          by_cases hd : isCount d = true <;>
            simp [Form.faultCode?, Form.fault?, wrongType, hcount, hd, IsInteger, eq_comm]
  | _ => simp [Form.faultCode?, Form.fault?, wrongType, IsCount, IsInteger, eq_comm]

/-- The faults of the fields of a parameter are those found by their forms. -/
theorem parameterFault_iff :
    (∃ f ∈ parameterForms, f.name = field ∧ f.form.faultCode? v = some code)
      ↔ ParameterFault field v ∧ code = .wrongFieldType := by
  constructor
  · rintro ⟨f, hf, rfl, hcode⟩
    simp only [parameterForms, List.mem_cons, List.not_mem_nil, or_false] at hf
    -- two fields are texts and two are flags
    rcases hf with rfl | rfl | rfl | rfl
    · obtain ⟨hv, rfl⟩ := faultCode?_text.mp hcode
      exact ⟨.text (by decide) hv, rfl⟩
    · obtain ⟨hv, rfl⟩ := faultCode?_text.mp hcode
      exact ⟨.text (by decide) hv, rfl⟩
    · obtain ⟨hv, rfl⟩ := faultCode?_flag.mp hcode
      exact ⟨.flag (by decide) hv, rfl⟩
    · obtain ⟨hv, rfl⟩ := faultCode?_flag.mp hcode
      exact ⟨.flag (by decide) hv, rfl⟩
  · rintro ⟨hfault, rfl⟩
    cases hfault with
    | text hfield hv =>
        refine ⟨⟨field, .text⟩, ?_, rfl, faultCode?_text.mpr ⟨hv, rfl⟩⟩
        simp only [parameterForms, List.mem_cons, List.not_mem_nil] at hfield ⊢
        grind
    | flag hfield hv =>
        refine ⟨⟨field, .flag⟩, ?_, rfl, faultCode?_flag.mpr ⟨hv, rfl⟩⟩
        simp only [parameterForms, List.mem_cons, List.not_mem_nil] at hfield ⊢
        grind

/-- What the form of a field finds at fault is a fault of an entry. -/
theorem EntryFault.of_form {f : FieldForm} (hf : f ∈ entryForms)
    (hcode : f.form.faultCode? v = some code) : EntryFault f.name v code := by
  simp only [entryForms, List.mem_cons, List.not_mem_nil, or_false] at hf
  -- one case for each field, in the order of the forms
  rcases hf with rfl | rfl | rfl | rfl | rfl | rfl | rfl | rfl | rfl | rfl
  · rcases faultCode?_kind.mp hcode with ⟨s, rfl, hs, rfl⟩ | ⟨hv, rfl⟩
    · exact .unknownKind hs
    · exact .kind hv
  · rcases faultCode?_nonEmptyText.mp hcode with ⟨rfl, rfl⟩ | ⟨hv, rfl⟩
    · exact .emptyName
    · exact .name hv
  · obtain ⟨hv, rfl⟩ := faultCode?_text.mp hcode
    exact .text (by decide) hv
  · obtain ⟨hv, rfl⟩ := faultCode?_text.mp hcode
    exact .text (by decide) hv
  · obtain ⟨hv, rfl⟩ := faultCode?_list.mp hcode
    exact .parameters hv
  · obtain ⟨hv, rfl⟩ := faultCode?_text.mp hcode
    exact .text (by decide) hv
  · obtain ⟨hv, ⟨hi, rfl⟩ | ⟨hi, rfl⟩⟩ := faultCode?_count.mp hcode
    · exact .negative (by decide) hv hi
    · exact .count (by decide) hv hi
  · obtain ⟨hv, ⟨hi, rfl⟩ | ⟨hi, rfl⟩⟩ := faultCode?_count.mp hcode
    · exact .negative (by decide) hv hi
    · exact .count (by decide) hv hi
  · obtain ⟨hv, rfl⟩ := faultCode?_text.mp hcode
    exact .text (by decide) hv
  · obtain ⟨hv, rfl⟩ := faultCode?_text.mp hcode
    exact .text (by decide) hv

/-- Each fault of an entry is found by the form of a field. -/
theorem EntryFault.exists_form (hfault : EntryFault field v code) :
    ∃ f ∈ entryForms, f.name = field ∧ f.form.faultCode? v = some code := by
  cases hfault with
  | unknownKind hs =>
      exact ⟨⟨"kind", .kind⟩, by simp [entryForms], rfl,
        faultCode?_kind.mpr (Or.inl ⟨_, rfl, hs, rfl⟩)⟩
  | kind hv =>
      exact ⟨⟨"kind", .kind⟩, by simp [entryForms], rfl,
        faultCode?_kind.mpr (Or.inr ⟨hv, rfl⟩)⟩
  | emptyName =>
      exact ⟨⟨"name", .nonEmptyText⟩, by simp [entryForms], rfl,
        faultCode?_nonEmptyText.mpr (Or.inl ⟨rfl, rfl⟩)⟩
  | name hv =>
      exact ⟨⟨"name", .nonEmptyText⟩, by simp [entryForms], rfl,
        faultCode?_nonEmptyText.mpr (Or.inr ⟨hv, rfl⟩)⟩
  | text hfield hv =>
      refine ⟨⟨field, .text⟩, ?_, rfl, faultCode?_text.mpr ⟨hv, rfl⟩⟩
      simp only [entryForms, List.mem_cons, List.not_mem_nil] at hfield ⊢
      grind
  | parameters hv =>
      exact ⟨⟨"parameters", .list⟩, by simp [entryForms], rfl,
        faultCode?_list.mpr ⟨hv, rfl⟩⟩
  | negative hfield hv hi =>
      refine ⟨⟨field, .count⟩, ?_, rfl, faultCode?_count.mpr ⟨hv, Or.inl ⟨hi, rfl⟩⟩⟩
      simp only [entryForms, List.mem_cons, List.not_mem_nil] at hfield ⊢
      grind
  | count hfield hv hi =>
      refine ⟨⟨field, .count⟩, ?_, rfl, faultCode?_count.mpr ⟨hv, Or.inr ⟨hi, rfl⟩⟩⟩
      simp only [entryForms, List.mem_cons, List.not_mem_nil] at hfield ⊢
      grind

/-- The faults of the fields of an entry are those found by their forms. -/
theorem entryFault_iff :
    (∃ f ∈ entryForms, f.name = field ∧ f.form.faultCode? v = some code)
      ↔ EntryFault field v code := by
  constructor
  · rintro ⟨f, hf, rfl, hcode⟩
    exact .of_form hf hcode
  · exact EntryFault.exists_form

end Forms

/-! ## Required fields -/

theorem ofName?_eq_some_iff (s : String) (kind : EntryKind) :
    EntryKind.ofName? s = some kind ↔ s = kind.name := by
  constructor
  · intro h
    have := List.find?_some h
    exact (beq_iff_eq.mp this).symm
  · rintro rfl
    cases kind <;> decide

/-- The kind that an entry gives is the one whose name it has. -/
theorem givenKind?_eq_some_iff (ms : List (String × Json)) (kind : EntryKind) :
    givenKind? ms = some kind ↔ (Json.object ms).member? "kind" = some (.string kind.name) := by
  rw [givenKind?, Json.member?]
  split
  · next s hs =>
    rw [hs, ofName?_eq_some_iff]
    simp
  · next hother =>
    constructor
    · intro h
      cases h
    · intro h
      exact absurd h (hother kind.name)

/-- The fields that an entry must have are those of the walk. -/
theorem requires_iff (ms : List (String × Json)) (field : String) :
    Requires (.object ms) field ↔ field ∈ requiredFields ms := by
  constructor
  · intro h
    cases h with
    | always hfield =>
        rw [requiredFields]
        split
        · exact List.mem_append_left _ hfield
        · exact hfield
    | method hkind hfield =>
        rw [requiredFields, (givenKind?_eq_some_iff ms .method).mpr hkind]
        exact List.mem_append_right _ hfield
    | property hkind hname =>
        simp only [List.mem_cons, List.not_mem_nil, or_false] at hname
        rcases hname with rfl | rfl
        · rw [requiredFields, (givenKind?_eq_some_iff ms .property).mpr hkind]
          exact List.mem_append_right _ List.mem_cons_self
        · rw [requiredFields, (givenKind?_eq_some_iff ms .event).mpr hkind]
          exact List.mem_append_right _ List.mem_cons_self
  · intro h
    rw [requiredFields] at h
    -- without a kind nothing is asked for beyond what every entry has
    cases hkind : givenKind? ms with
    | none =>
        rw [hkind] at h
        exact .always h
    | some kind =>
        rw [hkind] at h
        rw [givenKind?_eq_some_iff] at hkind
        rcases List.mem_append.mp h with hbase | hown
        · exact .always hbase
        · cases kind with
          | method => exact .method hkind hown
          | property =>
              rw [List.mem_singleton.mp hown]
              exact .property hkind (by decide)
          | event =>
              rw [List.mem_singleton.mp hown]
              exact .property hkind (by decide)

/-- No field is asked for twice. -/
theorem nodup_requiredFields (ms : List (String × Json)) : (requiredFields ms).Nodup := by
  rw [requiredFields]
  split
  · next kind _ => cases kind <;> decide
  · decide

end Bindery.Contract
