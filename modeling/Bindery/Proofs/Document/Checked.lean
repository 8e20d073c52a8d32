import Bindery.Proofs.Contract.Places
import Bindery.Proofs.Contract.SchemaReport
import Bindery.Proofs.Document.Codec

/-!
# Written documents and the contract

What a document is written as meets the contract but for entries without a name.  The check
of its value reports one violation for each of them, interface by interface and entry by entry
(`Document.check_toJson`).

The walk through the value is followed level by level.  It meets the interfaces in the order of
the document and their entries in order, so its violations are sorted as they come
(`pairwise_unnamed`), and sorting them changes nothing.
-/

namespace Bindery

open Json Contract

namespace Contract

/-- The violation that an entry without a name is. -/
def unnamedViolation (interface : String) (n : Nat) : Violation :=
  ⟨.emptyName, (Location.ofEntry interface n).atField "name", "field 'name' must not be empty"⟩

/-- The violations that the entries of an interface without a name are. -/
def unnamedEntries (interface : String) (es : List Entry) : List Violation :=
  (es.zipIdx.filter fun p => p.1.name == "").map fun p => unnamedViolation interface p.2

end Contract

/-- The violations that the entries without a name are, by interface and then by entry.  An
interface that has the name of the parents' key is not written. -/
def Document.unnamed (d : Document) : List Violation :=
  d.dropReserved.entries.entries.flatMap fun e => unnamedEntries e.1 e.2

/-! ## Entries -/

section Entries

/-- The written form of a parameter meets the contract. -/
theorem isParameter_toJson (p : Parameter) : IsParameter p.toJson := by
  refine ⟨_, rfl, ?_, ?_⟩
  · simp [HasFields, parameterRequired, List.lookup_cons]
  · simp [HasForms, parameterForms, Form.Admits, List.lookup_cons]

/-- The kind is written first and is read as the kind it is. -/
theorem givenKind?_cons (kind : EntryKind) (ms : List (String × Json)) :
    givenKind? (("kind", .string kind.name) :: ms) = some kind := by
  cases kind <;> rfl

/-- The fields of an entry apart from its name. -/
def formsBesideName : List FieldForm := entryForms.filter fun f => f.name != "name"

/-- The members of an entry pass the check, whatever its name is. -/
structure MembersPass (name : String) (ms : List (String × Json)) : Prop where
  required : HasFields (requiredFields ms) ms
  forms : HasForms formsBesideName ms
  parameters : HasParameters ms
  name : ms.lookup "name" = some (.string name)

/-- So do the members of a method, whatever counts it holds: they are written as
natural numbers. -/
theorem membersPass_method (m : MethodEntry) :
    MembersPass m.name (("kind", .string EntryKind.method.name) :: m.members) := by
  obtain ⟨interface, name, parameters, arity, required, returnType, thisType, doc⟩ := m
  have hkind : EntryKind.ofName? EntryKind.method.name = some .method := rfl
  refine ⟨?_, ?_, ?_, rfl⟩
  · rw [requiredFields, givenKind?_cons]
    simp [HasFields, entryRequired, requiredOfKind, MethodEntry.members, List.lookup_cons]
  · -- members that may be left out: with and without
    cases thisType <;> cases doc <;>
      simp [HasForms, formsBesideName, entryForms, Form.Admits, MethodEntry.members,
        optionalMember, List.lookup_cons, hkind]
  · intro items hitems p hp
    obtain rfl : parameters.map Parameter.toJson = items := by
      simpa [MethodEntry.members, List.lookup_cons] using hitems
    obtain ⟨q, -, rfl⟩ := List.mem_map.mp hp
    exact isParameter_toJson q

/-- Properties and events have the same members. -/
theorem membersPass_property {kind : EntryKind} (hrequired : requiredOfKind kind = ["type"])
    (hkind : EntryKind.ofName? kind.name = some kind) (p : PropertyEntry) :
    MembersPass p.name (("kind", .string kind.name) :: p.members) := by
  obtain ⟨interface, name, typeText, doc⟩ := p
  refine ⟨?_, ?_, ?_, rfl⟩
  · rw [requiredFields, givenKind?_cons]
    simp [HasFields, entryRequired, hrequired, PropertyEntry.members, List.lookup_cons]
  · cases doc <;>
      simp [HasForms, formsBesideName, entryForms, Form.Admits, PropertyEntry.members,
        optionalMember, List.lookup_cons, hkind]
  · intro items hitems
    cases doc <;> simp [PropertyEntry.members, optionalMember, List.lookup_cons] at hitems

/-- The members of an entry meet what its kind asks for. -/
theorem membersPass_entry (e : Entry) :
    MembersPass e.name (("kind", .string e.kind.name) :: e.members) := by
  cases e with
  | method m => exact membersPass_method m
  | property p => exact membersPass_property rfl rfl p
  | event p => exact membersPass_property rfl rfl p

/-- Where other fields have their forms, fault is found with one field at most. -/
theorem faultyFields_eq_of_forms (place : Location) {key : String} {forms : List FieldForm}
    {ms : List (String × Json)} (h : HasForms (forms.filter fun f => f.name != key) ms) :
    faultyFields place forms ms
      = faultyFields place (forms.filter fun f => f.name == key) ms := by
  rw [faultyFields, faultyFields, List.filterMap_filter]
  refine List.filterMap_congr fun f hf => ?_
  by_cases hkey : f.name = key
  · rw [if_pos (by simpa using hkey)]
  · rw [if_neg (by simpa using hkey)]
    cases hlookup : ms.lookup f.name with
    | none => rfl
    | some v =>
        have hform := h f (List.mem_filter.mpr ⟨hf, by simpa using hkey⟩) v hlookup
        simp only [(fault?_eq_none_iff f.name f.form v).mpr hform, Option.map_none]

/-- **ENTRIES**: of a written entry only an empty name is reported. -/
theorem entryViolations_toJson (interface : String) (n : Nat) (e : Entry) :
    entryViolations (.ofEntry interface n) e.toJson
      = if e.name = "" then [unnamedViolation interface n] else [] := by
  have hpass := membersPass_entry e
  have hname : entryForms.filter (fun f => f.name == "name") = [⟨"name", .nonEmptyText⟩] := rfl
  rw [Entry.toJson, entryViolations, (missingFields_eq_nil_iff _ _ _).mpr hpass.required,
    (parametersViolations_eq_nil_iff _ _).mpr hpass.parameters,
    faultyFields_eq_of_forms _ hpass.forms, hname, List.nil_append, List.append_nil, faultyFields,
    List.filterMap_cons, hpass.name, List.filterMap_nil]
  by_cases hempty : e.name = ""
  · have hmessage : "field '" ++ "name" ++ "' must not be empty"
        = "field 'name' must not be empty" := by decide
    simp only [Form.fault?, if_pos hempty, Option.map_some, hmessage, unnamedViolation]
  · simp only [Form.fault?, if_neg hempty, Option.map_none]

/-- Of the written entries of an interface the empty names are reported, entry by entry. -/
theorem interfaceViolations_entriesToJson (interface : String) (es : List Entry) :
    interfaceViolations interface (entriesToJson es) = unnamedEntries interface es := by
  rw [entriesToJson, interfaceViolations, List.zipIdx_map, List.flatMap_map, unnamedEntries]
  generalize es.zipIdx = ps
  induction ps with
  | nil => rfl
  | cons p ps ih =>
      rw [List.flatMap_cons, ih, List.filter_cons]
      show entryViolations (.ofEntry interface p.2) p.1.toJson ++ _ = _
      rw [entryViolations_toJson]
      by_cases hname : p.1.name = ""
      · rw [if_pos hname, if_pos (by simpa using hname)]
        rfl
      · rw [if_neg hname, if_neg (by simpa using hname)]
        rfl

end Entries

/-! ## Documents -/

/-- Nothing is reported of a written table of parents. -/
theorem tableViolations_toJson (t : ParentTable) : tableViolations t.toJson = [] := by
  rw [tableViolations_eq_nil_iff]
  refine ⟨_, rfl, ?_⟩
  intro m hm
  obtain ⟨e, -, rfl⟩ := List.mem_map.mp hm
  refine ⟨_, rfl, ?_⟩
  intro p hp
  obtain ⟨s, -, rfl⟩ := List.mem_map.mp hp
  exact ⟨s, rfl⟩

/-- A member that is not the table of parents is reported on as an interface. -/
theorem memberViolations_interfaceMember {e : String × List Entry} (h : ¬ e.1 = parentsKey) :
    memberViolations (interfaceMember e).1 (interfaceMember e).2 = unnamedEntries e.1 e.2 := by
  rw [interfaceMember, memberViolations, if_neg h, interfaceViolations_entriesToJson]

/-- The table of parents may stand last, or in the place of an interface. -/
theorem flatMap_memberViolations {es : List (String × List Entry)}
    (hnodup : (es.map Prod.fst).Nodup) (t : ParentTable) :
    (putPair (es.map interfaceMember) (parentsKey, t.toJson)).flatMap
        (fun m => memberViolations m.1 m.2)
      = (es.filter fun e => e.1 != parentsKey).flatMap fun e => unnamedEntries e.1 e.2 := by
  have htable : memberViolations parentsKey t.toJson = [] := by
    rw [memberViolations, if_pos rfl, tableViolations_toJson]
  induction es with
  | nil =>
      show memberViolations parentsKey t.toJson ++ [] = []
      rw [htable, List.append_nil]
  | cons e es ih =>
      rw [List.map_cons, List.nodup_cons] at hnodup
      by_cases hkey : e.1 = parentsKey
      · have hput : putPair ((e :: es).map interfaceMember) (parentsKey, t.toJson)
            = (parentsKey, t.toJson) :: es.map interfaceMember := by
          rw [List.map_cons, interfaceMember, putPair, upsertPair, if_pos hkey, hkey]
        -- names are distinct, so what stands behind it are interfaces that are written
        rw [hkey] at hnodup
        rw [hput, List.flatMap_cons, htable, List.nil_append,
          List.filter_cons_of_neg (by simpa using hkey), filter_of_notMem hnodup.1,
          List.flatMap_map]
        refine List.flatMap_congr fun e' he' => memberViolations_interfaceMember fun heq => ?_
        exact hnodup.1 (List.mem_map.mpr ⟨e', he', heq⟩)
      · have hput : putPair ((e :: es).map interfaceMember) (parentsKey, t.toJson)
            = interfaceMember e :: putPair (es.map interfaceMember) (parentsKey, t.toJson) := by
          rw [List.map_cons, interfaceMember, putPair, upsertPair, if_neg hkey]
          rfl
        rw [hput, List.flatMap_cons, memberViolations_interfaceMember hkey, ih hnodup.2,
          List.filter_cons_of_pos (by simpa using hkey), List.flatMap_cons]

/-- **THE WALK**: it finds the entries without a name. -/
theorem violations_toJson (d : Document) : violations d.toJson = d.unnamed := by
  rw [d.toJson_eq, violations, flatMap_memberViolations d.entries.nodup]
  rfl

/-! ## The order -/

/-- Keys that come later have a later position. -/
theorem pairwise_idxOf? {keys : List String} (h : keys.Nodup) :
    keys.Pairwise fun a b => compare (keys.idxOf? a) (keys.idxOf? b) = .lt := by
  have hposition : ∀ i (hi : i < keys.length), keys.idxOf? keys[i] = some i := by
    intro i hi
    refine List.idxOf?_eq_some_iff.mpr ⟨hi, rfl, ?_⟩
    intro j hj heq
    exact absurd (h.getElem_inj_iff.mp heq) (Nat.ne_of_lt hj)
  rw [List.pairwise_iff_getElem]
  intro i j hi hj hij
  rw [hposition i hi, hposition j hj]
  exact Nat.compare_eq_lt.mpr hij

/-- The positions of keys, and then the numbers of entries, settle the order. -/
theorem isLE_compareIn_unnamed {keys : List String} {key key' : String} {m n : Nat}
    (h : compare (keys.idxOf? key) (keys.idxOf? key') = .lt ∨ (key = key' ∧ m < n)) :
    (compareIn keys (unnamedViolation key m) (unnamedViolation key' n)).isLE = true := by
  have hposition : ∀ key n,
      keyPosition keys (unnamedViolation key n).location = keys.idxOf? key := fun _ _ => rfl
  rw [compareIn, hposition, hposition]
  rcases h with hlt | ⟨rfl, hlt⟩
  · rw [hlt]
    rfl
  · have hindex : compare (unnamedViolation key m).location.index
        (unnamedViolation key n).location.index = .lt := Nat.compare_eq_lt.mpr hlt
    have hkey : compare (keys.idxOf? key) (keys.idxOf? key) = .eq := Std.ReflCmp.compare_self
    rw [hkey, hindex]
    rfl

/-- The entries of an interface are reported in order. -/
theorem pairwise_unnamedEntries (keys : List String) (interface : String) (es : List Entry) :
    (unnamedEntries interface es).Pairwise fun a b => (compareIn keys a b).isLE = true := by
  rw [unnamedEntries, List.pairwise_map]
  refine List.Pairwise.filter _ ?_
  rw [List.pairwise_iff_getElem]
  intro i j hi hj hij
  simp only [List.getElem_zipIdx]
  exact isLE_compareIn_unnamed (Or.inr ⟨rfl, by omega⟩)

/-- The keys of interfaces stand in the value in their order. -/
theorem sublist_topKeys (d : Document) :
    (d.dropReserved.entries.entries.map Prod.fst).Sublist (topKeys d.toJson) := by
  have hkeys : topKeys d.toJson
      = if parentsKey ∈ d.entries.keys then d.entries.keys else d.entries.keys ++ [parentsKey] := by
    rw [d.toJson_eq, topKeys, putPair, map_fst_upsertPair, keys_interfaceMember]
    rfl
  have hkept : (d.dropReserved.entries.entries.map Prod.fst).Sublist d.entries.keys :=
    List.filter_sublist.map Prod.fst
  rw [hkeys]
  split
  · exact hkept
  · exact hkept.trans (List.sublist_append_left _ _)

/-- The reserved key is written only if no interface has taken it, so the keys are distinct. -/
theorem nodup_topKeys (d : Document) : (topKeys d.toJson).Nodup := by
  rw [d.toJson_eq]
  refine nodup_upsertPair _ _ ?_
  rw [keys_interfaceMember]
  exact d.entries.nodup

/-- **THE ORDER**: the walk finds the entries without a name in the order of the report. -/
theorem pairwise_unnamed (d : Document) :
    d.unnamed.Pairwise fun a b => (compareIn (topKeys d.toJson) a b).isLE = true := by
  rw [Document.unnamed, List.pairwise_flatMap]
  refine ⟨fun e _ => pairwise_unnamedEntries _ e.1 e.2, ?_⟩
  -- entries of different interfaces: the places of the interfaces decide
  have hkeys := (pairwise_idxOf? (nodup_topKeys d)).sublist (sublist_topKeys d)
  refine (List.pairwise_map.mp hkeys).imp ?_
  intro e e' hlt a ha b hb
  obtain ⟨p, -, rfl⟩ := List.mem_map.mp ha
  obtain ⟨q, -, rfl⟩ := List.mem_map.mp hb
  exact isLE_compareIn_unnamed (Or.inl hlt)

/-! ## Places -/

/-- An entry without a name is reported at its name. -/
theorem path_unnamedViolation (interface : String) (n : Nat) :
    (unnamedViolation interface n).location.path
      = "/" ++ String.ofList (escapeToken interface.toList) ++ "/" ++ toString n ++ "/name" := by
  have hname : "/" ++ String.ofList (escapeToken "name".toList) = "/name" := by decide
  rw [Location.path_eq]
  show "/" ++ String.ofList (escapeToken interface.toList) ++ ("/" ++ toString n) ++ ""
    ++ ("/" ++ String.ofList (escapeToken "name".toList)) = _
  rw [hname, String.append_empty, ← String.append_assoc]

/-- **WRITTEN DOCUMENTS**: the check of the value of a document reports each entry without a
name once, as an empty name at the name of the entry, interface by interface in the order of
the document and then entry by entry, and reports nothing else; an interface that has the name
of the parents' key does not count.  The schema of documents reports the same. -/
theorem Document.check_toJson (d : Document) :
    check d.toJson = d.unnamed
      ∧ schemaReport d.toJson = d.unnamed
      ∧ (check d.toJson).map (fun v => (v.code, v.location.path))
        = d.dropReserved.entries.entries.flatMap fun e =>
            (e.2.zipIdx.filter fun p => p.1.name == "").map fun p =>
              (.emptyName, "/" ++ String.ofList (escapeToken e.1.toList) ++ "/" ++ toString p.2
                ++ "/name") := by
  have hcheck : check d.toJson = d.unnamed := by
    rw [check, violations_toJson]
    exact List.mergeSort_of_pairwise (pairwise_unnamed d)
  have hschema : schemaReport d.toJson = check d.toJson :=
    destutter_mergeSort_eq_check (distinct_settle d.tree)
      (same_documentSchema (distinct_settle d.tree))
  refine ⟨hcheck, hschema.trans hcheck, ?_⟩
  rw [hcheck, Document.unnamed, List.map_flatMap]
  refine List.flatMap_congr fun e _ => ?_
  rw [unnamedEntries, List.map_map]
  refine List.map_congr_left fun p _ => ?_
  rw [Function.comp_apply, path_unnamedViolation]
  rfl

end Bindery
