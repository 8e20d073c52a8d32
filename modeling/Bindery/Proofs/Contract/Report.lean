import Bindery.Proofs.Contract.Faults
import Bindery.Proofs.Json.Settle
import Bindery.Proofs.Keyed
import Mathlib.Data.List.Forall2

/-!
# What is reported

The report of a check against the defects of the value: each defect is reported once, with
its code and its place, and nothing else is.  That is one statement about a list of
violations and a property of defects (`Lists`), which is kept when lists are put behind one
another, and there is one lemma for each function of the walk.

The headline is `lists_check`.
-/

namespace Bindery.Contract

open Json

/-! ## Lists of violations -/

/-- The items of a list are numbered one by one. -/
theorem pairwise_zipIdx (items : List Json) : items.zipIdx.Pairwise fun x y => x.2 ≠ y.2 := by
  refine List.pairwise_map.mp (?_ : (items.zipIdx.map Prod.snd).Nodup)
  rw [List.zipIdx_map_snd]
  exact List.nodup_range'

/-- The violations tell of the defects with a property, of each one once, with its code and
its place, and of nothing else. -/
def Lists (vs : List Violation) (P : Defect → Prop) : Prop :=
  ∃ ds : List Defect, ds.Nodup ∧ (∀ d, d ∈ ds ↔ P d)
    ∧ vs.map (fun v => (v.code, v.location)) = ds.map (fun d => (d.code, d.location))

namespace Lists

variable {α : Type} {vs ws : List Violation} {P Q : Defect → Prop}

/-- A list of violations lists what is equivalent too. -/
theorem congr (h : Lists vs P) (hPQ : ∀ d, P d ↔ Q d) : Lists vs Q := by
  obtain ⟨ds, hnodup, hmem, hmap⟩ := h
  exact ⟨ds, hnodup, fun d => (hmem d).trans (hPQ d), hmap⟩

theorem nil (h : ∀ d, ¬ P d) : Lists [] P :=
  ⟨[], List.nodup_nil, fun d => by simp [h d], rfl⟩

/-- One violation that tells of the one defect. -/
theorem one {v : Violation} {d : Defect} (hcode : v.code = d.code)
    (hlocation : v.location = d.location) (h : ∀ d', P d' ↔ d' = d) : Lists [v] P :=
  ⟨[d], List.nodup_singleton d, fun d' => by rw [List.mem_singleton, h],
    by simp [hcode, hlocation]⟩

/-- Reports of different defects are put behind one another. -/
theorem append (hv : Lists vs P) (hw : Lists ws Q) (hdisjoint : ∀ d, P d → ¬ Q d) :
    Lists (vs ++ ws) (fun d => P d ∨ Q d) := by
  obtain ⟨ds, hds, hdsmem, hdsmap⟩ := hv
  obtain ⟨es, hes, hesmem, hesmap⟩ := hw
  refine ⟨ds ++ es, ?_, ?_, ?_⟩
  · rw [List.nodup_append]
    refine ⟨hds, hes, ?_⟩
    rintro d hd e he rfl
    exact hdisjoint d ((hdsmem d).mp hd) ((hesmem d).mp he)
  · intro d
    rw [List.mem_append, hdsmem, hesmem]
  · rw [List.map_append, List.map_append, hdsmap, hesmap]

/-- Reports on the members of a list are put behind one another. -/
theorem flatMap {xs : List α} {f : α → List Violation} {R : α → Defect → Prop}
    (h : ∀ x ∈ xs, Lists (f x) (R x))
    (hdisjoint : xs.Pairwise fun x y => ∀ d, R x d → ¬ R y d) :
    Lists (xs.flatMap f) (fun d => ∃ x ∈ xs, R x d) := by
  induction xs with
  | nil => exact nil (by simp)
  | cons x xs ih =>
      rw [List.forall_mem_cons] at h
      rw [List.pairwise_cons] at hdisjoint
      rw [List.flatMap_cons]
      refine ((h.1.append (ih h.2 hdisjoint.2) ?_)).congr ?_
      · rintro d hx ⟨y, hy, hyd⟩
        exact hdisjoint.1 y hy d hx hyd
      · intro d
        simp

/-- The order of a report does not matter. -/
theorem perm (h : Lists vs P) (hperm : ws.Perm vs) : Lists ws P := by
  obtain ⟨ds, hnodup, hmem, hmap⟩ := h
  have hall : List.Forall₂ (fun s (d : Defect) => s = (d.code, d.location))
      (vs.map fun v => (v.code, v.location)) ds := by
    rw [hmap, List.forall₂_map_left_iff, List.forall₂_same]
    exact fun _ _ => rfl
  obtain ⟨es, hes, hperm'⟩ := List.perm_comp_forall₂ (hperm.map _) hall
  refine ⟨es, hperm'.nodup_iff.mpr hnodup, fun d => ?_, ?_⟩
  · rw [hperm'.mem_iff, hmem]
  · rw [← List.forall₂_eq_eq_eq, List.forall₂_map_right_iff]
    exact hes

/-- Reports on the items of a list are put behind one another. -/
theorem items {items : List Json} {f : Json × Nat → List Violation}
    {R : Nat → Json → Defect → Prop}
    (h : ∀ n p, (Json.array items).item? n = some p → Lists (f (p, n)) (R n p))
    (hdisjoint : ∀ m n p q d, R m p d → R n q d → m = n) :
    Lists (items.zipIdx.flatMap f)
      (fun d => ∃ n p, (Json.array items).item? n = some p ∧ R n p d) := by
  have hmem : ∀ p n, (p, n) ∈ items.zipIdx ↔ (Json.array items).item? n = some p :=
    fun p n => List.mk_mem_zipIdx_iff_getElem?
  refine (Lists.flatMap (R := fun x => R x.2 x.1) ?_ ?_).congr ?_
  · rintro ⟨p, n⟩ hx
    exact h n p ((hmem p n).mp hx)
  · refine (pairwise_zipIdx items).imp ?_
    rintro ⟨p, m⟩ ⟨q, n⟩ hne d hp hq
    exact hne (hdisjoint m n p q d hp hq)
  · intro d
    constructor
    · rintro ⟨⟨p, n⟩, hx, hd⟩
      exact ⟨n, p, (hmem p n).mp hx, hd⟩
    · rintro ⟨n, p, hx, hd⟩
      exact ⟨(p, n), (hmem p n).mpr hx, hd⟩

/-- Reports on the members of an object are put behind one another. -/
theorem members {ms : List (String × Json)} {f : String × Json → List Violation}
    {R : String → Json → Defect → Prop} (hnodup : (ms.map Prod.fst).Nodup)
    (h : ∀ key v, (Json.object ms).member? key = some v → Lists (f (key, v)) (R key v))
    (hdisjoint : ∀ key key' v v' d, R key v d → R key' v' d → key = key') :
    Lists (ms.flatMap f)
      (fun d => ∃ key v, (Json.object ms).member? key = some v ∧ R key v d) := by
  have hmem : ∀ key v, (key, v) ∈ ms ↔ (Json.object ms).member? key = some v :=
    fun key v => (lookup_eq_some_iff_mem hnodup key v).symm
  refine (Lists.flatMap (R := fun x => R x.1 x.2) ?_ ?_).congr ?_
  · rintro ⟨key, v⟩ hx
    exact h key v ((hmem key v).mp hx)
  · refine (List.pairwise_map.mp hnodup).imp ?_
    rintro ⟨key, v⟩ ⟨key', v'⟩ hne d hp hq
    exact hne (hdisjoint key key' v v' d hp hq)
  · intro d
    constructor
    · rintro ⟨⟨key, v⟩, hx, hd⟩
      exact ⟨key, v, (hmem key v).mp hx, hd⟩
    · rintro ⟨key, v, hx, hd⟩
      exact ⟨(key, v), (hmem key v).mpr hx, hd⟩

/-- Nothing is reported exactly if there is no defect. -/
theorem eq_nil_iff (h : Lists vs P) : vs = [] ↔ ∀ d, ¬ P d := by
  obtain ⟨ds, -, hmem, hmap⟩ := h
  have hlength := congrArg List.length hmap
  rw [List.length_map, List.length_map] at hlength
  constructor
  · rintro rfl d hd
    rw [← hmem, List.length_eq_zero_iff.mp hlength.symm] at hd
    cases hd
  · intro hnone
    have : ds = [] := List.eq_nil_iff_forall_not_mem.mpr fun d hd => hnone d ((hmem d).mp hd)
    rw [this] at hlength
    exact List.length_eq_zero_iff.mp hlength

end Lists

/-! ## Fields -/

/-- Missing fields are reported one by one. -/
theorem lists_missingFields (place : Location) {required : List String}
    (ms : List (String × Json)) (defect : String → Defect) (hnodup : required.Nodup)
    (hinjective : Function.Injective defect)
    (hdefect : ∀ field, (defect field).code = .missingField
      ∧ (defect field).location = place.atField field) :
    Lists (missingFields place required ms)
      (fun d => ∃ field ∈ required, (Json.object ms).member? field = none ∧ d = defect field) := by
  refine ⟨(required.filter fun field => (ms.lookup field).isNone).map defect, ?_, ?_, ?_⟩
  · exact (hnodup.filter _).map hinjective
  · intro d
    rw [List.mem_map]
    constructor
    · rintro ⟨field, hfield, rfl⟩
      obtain ⟨hrequired, hnone⟩ := List.mem_filter.mp hfield
      exact ⟨field, hrequired, Option.isNone_iff_eq_none.mp hnone, rfl⟩
    · rintro ⟨field, hrequired, hnone, rfl⟩
      exact ⟨field, List.mem_filter.mpr ⟨hrequired, Option.isNone_iff_eq_none.mpr hnone⟩, rfl⟩
  · simp [missingFields, Function.comp_def, hdefect]

/-- Fields that do not have their forms are reported one by one. -/
theorem lists_faultyFields (place : Location) {forms : List FieldForm}
    (ms : List (String × Json)) (defect : String → ViolationCode → Defect)
    (hnodup : (forms.map FieldForm.name).Nodup)
    (hinjective : ∀ f g c c', defect f c = defect g c' → f = g)
    (hdefect : ∀ f ∈ forms, ∀ v code, f.form.faultCode? v = some code →
      (defect f.name code).code = code
        ∧ (defect f.name code).location = place.atField f.name) :
    Lists (faultyFields place forms ms)
      (fun d => ∃ f ∈ forms, ∃ v code, (Json.object ms).member? f.name = some v
        ∧ f.form.faultCode? v = some code ∧ d = defect f.name code) := by
  rw [faultyFields, List.filterMap_eq_flatMap_toList]
  -- One field gives at most one defect, since the first fault of its form is taken; two fields
  -- cannot give the same one, since the defect names its field.
  refine Lists.flatMap ?_ ?_
  · intro f hf
    cases hlookup : ms.lookup f.name with
    | none =>
        refine Lists.nil ?_
        rintro d ⟨v, code, hv, -⟩
        cases hlookup.symm.trans hv
    | some v =>
        have hcode := map_code_fault? f.form f.name v
        cases hfault : f.form.fault? f.name v with
        | none =>
            rw [hfault] at hcode
            simp only [hfault, Option.map_none, Option.toList_none]
            refine Lists.nil ?_
            rintro d ⟨v', code, hv, hcode', -⟩
            obtain rfl : v = v' := Option.some.inj (hlookup.symm.trans hv)
            cases hcode.trans hcode'
        | some fault =>
            rw [hfault, Option.map_some] at hcode
            simp only [hfault, Option.map_some, Option.toList_some]
            obtain ⟨hdcode, hdlocation⟩ := hdefect f hf v fault.code hcode.symm
            refine Lists.one hdcode.symm hdlocation.symm ?_
            intro d
            constructor
            · rintro ⟨v', code, hv, hcode', rfl⟩
              obtain rfl : v = v' := Option.some.inj (hlookup.symm.trans hv)
              rw [Option.some.inj (hcode.trans hcode')]
            · rintro rfl
              exact ⟨v, fault.code, hlookup, hcode.symm, rfl⟩
  · refine (List.pairwise_map.mp hnodup).imp ?_
    rintro f g hne d ⟨v, code, -, -, rfl⟩ ⟨v', code', -, -, heq⟩
    exact hne (hinjective _ _ _ _ heq)

/-! ## Records -/

section Records

variable {interface : String} {index n : Nat} {d : Defect} {p e v : Json}

/-- The defects of a parameter are placed at it. -/
theorem ParameterDefect.location (h : ParameterDefect interface index n p d) :
    d.location.interface = some interface ∧ d.location.index = some index
      ∧ d.location.parameter = some n := by
  cases h <;> exact ⟨rfl, rfl, rfl⟩

/-- The defects of an entry are placed at it. -/
theorem EntryDefect.location (h : EntryDefect interface index e d) :
    d.location.interface = some interface ∧ d.location.index = some index := by
  cases h with
  | parameter _ _ hd => exact ⟨hd.location.1, hd.location.2.1⟩
  | _ => exact ⟨rfl, rfl⟩

/-- The defects of the entries of an interface are placed there. -/
theorem EntriesDefect.location (h : EntriesDefect interface v d) :
    d.location.interface = some interface := by
  cases h with
  | form => rfl
  | entry _ hd => exact hd.location.1

/-- A parameter that is no object has this one defect. -/
theorem parameterDefect_iff_of_not_object (hp : ¬ p.IsObject) :
    ParameterDefect interface index n p d ↔ d = .parameter interface index n := by
  constructor
  · intro h
    cases h with
    | form => rfl
    | missing hobject => exact absurd hobject hp
    | faulty hfield =>
        cases p with
        | object ms => exact absurd trivial hp
        | _ => cases hfield
  · rintro rfl
    exact .form hp

/-- The walk over a parameter lists its defects. -/
theorem lists_parameterViolations (interface : String) (index n : Nat) (p : Json) :
    Lists (parameterViolations ((Location.ofEntry interface index).atParameter n) p)
      (ParameterDefect interface index n p) := by
  cases p with
  | object ms =>
      rw [parameterViolations]
      have hmissing := lists_missingFields ((Location.ofEntry interface index).atParameter n) ms
        (Defect.missingIn interface index n) (show parameterRequired.Nodup by decide)
        (fun _ _ h => (Defect.missingIn.inj h).2.2.2) (fun _ => ⟨rfl, rfl⟩)
      have hfaulty := lists_faultyFields ((Location.ofEntry interface index).atParameter n) ms
        (fun field _ => Defect.faultyIn interface index n field)
        (show (parameterForms.map FieldForm.name).Nodup by decide)
        (fun _ _ _ _ h => (Defect.faultyIn.inj h).2.2.2) (by
          intro f hf v code hcode
          obtain ⟨-, rfl⟩ := parameterFault_iff.mp ⟨f, hf, rfl, hcode⟩
          exact ⟨rfl, rfl⟩)
      -- A defect is of one constructor only, so none is listed among the missing and among the
      -- faulty.
      refine (hmissing.append hfaulty ?_).congr ?_
      · rintro d ⟨field, -, -, rfl⟩ ⟨f, -, v, code, -, -, heq⟩
        cases heq
      · intro d
        constructor
        · rintro (⟨field, hfield, hnone, rfl⟩ | ⟨f, hf, v, code, hv, hcode, rfl⟩)
          · exact .missing trivial hfield hnone
          · exact .faulty hv (parameterFault_iff.mp ⟨f, hf, rfl, hcode⟩).1
        · intro h
          cases h with
          | form hp => exact absurd trivial hp
          | missing _ hfield hnone => exact Or.inl ⟨_, hfield, hnone, rfl⟩
          | faulty hv hfault =>
              obtain ⟨f, hf, rfl, hcode⟩ := parameterFault_iff.mpr ⟨hfault, rfl⟩
              exact Or.inr ⟨f, hf, _, _, hv, hcode, rfl⟩
  | _ => exact Lists.one rfl rfl fun d => parameterDefect_iff_of_not_object id

/-- The walk over the parameters lists those of each one. -/
theorem lists_parametersViolations (interface : String) (index : Nat)
    (ms : List (String × Json)) :
    Lists (parametersViolations (Location.ofEntry interface index) ms)
      (fun d => ∃ ps, (Json.object ms).member? "parameters" = some ps
        ∧ ∃ n p, ps.item? n = some p ∧ ParameterDefect interface index n p d) := by
  rw [parametersViolations]
  split
  · next items hlookup =>
    refine (Lists.items (fun n p _ => lists_parameterViolations interface index n p) ?_).congr
      fun d => ?_
    · intro m n p q d hp hq
      exact Option.some.inj (hp.location.2.2.symm.trans hq.location.2.2)
    constructor
    · intro h
      exact ⟨_, hlookup, h⟩
    · rintro ⟨ps, hps, h⟩
      obtain rfl : Json.array items = ps := Option.some.inj (hlookup.symm.trans hps)
      exact h
  · next hother =>
    -- what is no list has no items
    refine Lists.nil ?_
    rintro d ⟨ps, hps, n, p, hp, -⟩
    cases ps with
    | array items => exact hother items hps
    | _ => cases hp

/-- An entry that is no object has this one defect. -/
theorem entryDefect_iff_of_not_object (he : ¬ e.IsObject) :
    EntryDefect interface index e d ↔ d = .entry interface index := by
  have hnone : ∀ field v, e.member? field ≠ some v := by
    intro field v hv
    cases e with
    | object ms => exact absurd trivial he
    | _ => cases hv
  constructor
  · intro h
    cases h with
    | form => rfl
    | missing hobject => exact absurd hobject he
    | faulty hv => exact absurd hv (hnone _ _)
    | parameter hv => exact absurd hv (hnone _ _)
  · rintro rfl
    exact .form he

/-- The walk over an entry lists its defects, with those of its parameters. -/
theorem lists_entryViolations (interface : String) (index : Nat) (e : Json) :
    Lists (entryViolations (Location.ofEntry interface index) e)
      (EntryDefect interface index e) := by
  cases e with
  | object ms =>
      rw [entryViolations]
      have hmissing := lists_missingFields (Location.ofEntry interface index) ms
        (Defect.missing interface index) (nodup_requiredFields ms)
        (fun _ _ h => (Defect.missing.inj h).2.2) (fun _ => ⟨rfl, rfl⟩)
      have hfaulty := lists_faultyFields (Location.ofEntry interface index) ms
        (Defect.faulty interface index) (show (entryForms.map FieldForm.name).Nodup by decide)
        (fun _ _ _ _ h => (Defect.faulty.inj h).2.2.1) (fun _ _ _ _ _ => ⟨rfl, rfl⟩)
      have hparameters := lists_parametersViolations interface index ms
      -- three lists one after the other: they share no defect, since they differ in kind or in
      -- place
      refine ((hmissing.append hfaulty ?_).append hparameters ?_).congr ?_
      · rintro d ⟨field, -, -, rfl⟩ ⟨f, -, v, code, -, -, heq⟩
        cases heq
      · -- defects of parameters are placed at parameters
        rintro d hd ⟨ps, -, n, p, -, hp⟩
        have hplace := hp.location.2.2
        rcases hd with ⟨field, -, -, rfl⟩ | ⟨f, -, v, code, -, -, rfl⟩
        · cases hplace
        · cases hplace
      · intro d
        constructor
        · rintro ((⟨field, hfield, hnone, rfl⟩ | ⟨f, hf, v, code, hv, hcode, rfl⟩)
            | ⟨ps, hps, n, p, hp, hd⟩)
          · exact .missing trivial ((requires_iff ms field).mpr hfield) hnone
          · exact .faulty hv (entryFault_iff.mp ⟨f, hf, rfl, hcode⟩)
          · exact .parameter hps hp hd
        · intro h
          cases h with
          | form he => exact absurd trivial he
          | missing _ hfield hnone =>
              exact Or.inl (Or.inl ⟨_, (requires_iff ms _).mp hfield, hnone, rfl⟩)
          | faulty hv hfault =>
              obtain ⟨f, hf, rfl, hcode⟩ := entryFault_iff.mpr hfault
              exact Or.inl (Or.inr ⟨f, hf, _, _, hv, hcode, rfl⟩)
          | parameter hps hp hd => exact Or.inr ⟨_, hps, _, _, hp, hd⟩
  | _ => exact Lists.one rfl rfl fun d => entryDefect_iff_of_not_object id

/-! ## Tables -/

/-- The walk over an interface lists the defects of its value and of its entries. -/
theorem lists_interfaceViolations (interface : String) (v : Json) :
    Lists (interfaceViolations interface v) (EntriesDefect interface v) := by
  have hform : ∀ d, ¬ v.IsArray → (EntriesDefect interface v d ↔ d = .entries interface) := by
    intro d hv
    constructor
    · intro h
      cases h with
      | form => rfl
      | entry hitem =>
          cases v with
          | array items => exact absurd trivial hv
          | _ => cases hitem
    · rintro rfl
      exact .form hv
  cases v with
  | array items =>
      rw [interfaceViolations]
      refine (Lists.items (fun n e _ => lists_entryViolations interface n e) ?_).congr
        fun d => ?_
      -- defects of two entries are told apart by the index in their place
      · intro m n p q d hp hq
        exact Option.some.inj (hp.location.2.symm.trans hq.location.2)
      constructor
      · rintro ⟨n, e, he, hd⟩
        exact .entry he hd
      · intro h
        cases h with
        | form hv => exact absurd trivial hv
        | entry he hd => exact ⟨_, _, he, hd⟩
  | _ => exact Lists.one rfl rfl fun d => hform d id

/-- A parent that is no text is one defect. -/
theorem lists_parentsViolations (child : String) (v : Json) :
    Lists (parentsViolations child v) (ParentsDefect child v) := by
  have hform : ∀ d, ¬ v.IsArray → (ParentsDefect child v d ↔ d = .parents child) := by
    intro d hv
    constructor
    · intro h
      cases h with
      | form => rfl
      | parent hitem =>
          cases v with
          | array items => exact absurd trivial hv
          | _ => cases hitem
    · rintro rfl
      exact .form hv
  cases v with
  | array items =>
      rw [parentsViolations, List.filterMap_eq_flatMap_toList]
      refine (Lists.items (R := fun n p d => ¬ p.IsText ∧ d = .parent child n) ?_ ?_).congr
        fun d => ?_
      · intro n p _
        cases p with
        | string s => exact Lists.nil fun d h => h.1 trivial
        | _ => exact Lists.one rfl rfl fun d => and_iff_right id
      -- two parents are told apart by their numbers
      · rintro m n p q d ⟨-, rfl⟩ ⟨-, heq⟩
        exact (Defect.parent.inj heq).2
      constructor
      · rintro ⟨n, p, hp, htext, rfl⟩
        exact .parent hp htext
      · intro h
        cases h with
        | form hv => exact absurd trivial hv
        | parent hp htext => exact ⟨_, _, hp, htext, rfl⟩
  | _ => exact Lists.one rfl rfl fun d => hform d id

/-- The defects of parents are placed at the interface that has them. -/
theorem ParentsDefect.location {child : String} (h : ParentsDefect child v d) :
    d.location = (Location.ofKey parentsKey).atField child := by
  cases h <;> rfl

/-- The defects of the table of parents are placed there. -/
theorem TableDefect.location (h : TableDefect v d) : d.location.interface = some parentsKey := by
  cases h with
  | form => rfl
  | parents _ hd =>
      rw [hd.location]
      rfl

/-- The walk over the table lists its defects; with a repeated child some would be listed that
cannot be looked up. -/
theorem lists_tableViolations (hv : v.Distinct) : Lists (tableViolations v) (TableDefect v) := by
  have hform : ∀ d, ¬ v.IsObject → (TableDefect v d ↔ d = .table) := by
    intro d hv
    constructor
    · intro h
      cases h with
      | form => rfl
      | parents hmember =>
          cases v with
          | object ms => exact absurd trivial hv
          | _ => cases hmember
    · rintro rfl
      exact .form hv
  cases v with
  | object ms =>
      rw [tableViolations]
      refine (Lists.members ((distinct_object_iff ms).mp hv).1
        (fun child ps _ => lists_parentsViolations child ps) ?_).congr fun d => ?_
      -- two children are told apart by the field in their place
      · intro child child' ps ps' d hp hp'
        exact Option.some.inj (congrArg Location.field (hp.location.symm.trans hp'.location))
      constructor
      · rintro ⟨child, ps, hps, hd⟩
        exact .parents hps hd
      · intro h
        cases h with
        | form hv => exact absurd trivial hv
        | parents hps hd => exact ⟨_, _, hps, hd⟩
  | _ => exact Lists.one rfl rfl fun d => hform d id

end Records

/-! ## Whole values -/

/-- The defects of a value that is no object. -/
theorem documentDefect_iff_of_not_object {j : Json} {d : Defect} (hj : ¬ j.IsObject) :
    DocumentDefect j d ↔ d = .document := by
  have hnone : ∀ key v, j.member? key ≠ some v := by
    intro key v hv
    cases j with
    | object ms => exact absurd trivial hj
    | _ => cases hv
  constructor
  · intro h
    cases h with
    | form => rfl
    | table hv => exact absurd hv (hnone _ _)
    | entries _ hv => exact absurd hv (hnone _ _)
  · rintro rfl
    exact .form hj

/-- **THE WHOLE WALK** lists the defects of the document. -/
theorem lists_violations {j : Json} (hj : j.Distinct) :
    Lists (violations j) (DocumentDefect j) := by
  cases j with
  | object ms =>
      obtain ⟨hnodup, hvalues⟩ := (distinct_object_iff ms).mp hj
      rw [violations]
      -- every defect below a key is placed under that key
      have hplace : ∀ {key v d}, (key = parentsKey ∧ TableDefect v d)
          ∨ (key ≠ parentsKey ∧ EntriesDefect key v d) → d.location.interface = some key := by
        rintro key v d (⟨rfl, hd⟩ | ⟨-, hd⟩)
        · exact hd.location
        · exact hd.location
      refine (Lists.members (R := fun key v d => (key = parentsKey ∧ TableDefect v d)
        ∨ (key ≠ parentsKey ∧ EntriesDefect key v d)) hnodup ?_ ?_).congr fun d => ?_
      · intro key v hv
        rw [memberViolations]
        by_cases hkey : key = parentsKey
        · rw [if_pos hkey]
          refine (lists_tableViolations ?_).congr fun d => by simp [hkey]
          exact hvalues _ ((lookup_eq_some_iff_mem hnodup key v).mp hv)
        · rw [if_neg hkey]
          exact (lists_interfaceViolations key v).congr fun d => by simp [hkey]
      · intro key key' v v' d hd hd'
        exact Option.some.inj ((hplace hd).symm.trans (hplace hd'))
      constructor
      · rintro ⟨key, v, hv, ⟨rfl, hd⟩ | ⟨hkey, hd⟩⟩
        · exact .table hv hd
        · exact .entries hkey hv hd
      · intro h
        cases h with
        | form hj => exact absurd trivial hj
        | table hv hd => exact ⟨_, _, hv, Or.inl ⟨rfl, hd⟩⟩
        | entries hkey hv hd => exact ⟨_, _, hv, Or.inr ⟨hkey, hd⟩⟩
  | _ => exact Lists.one rfl rfl fun d => documentDefect_iff_of_not_object id

/-- A check of a value reports its defects, each of them once, with its code and its place,
and nothing else. -/
theorem lists_check {j : Json} (hj : j.Distinct) : Lists (check j) (DocumentDefect j) :=
  (lists_violations hj).perm (List.mergeSort_perm _ _)

end Bindery.Contract
