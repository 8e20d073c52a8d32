import Bindery.Proofs.Contract.Order
import Bindery.Proofs.Contract.Schema
import Bindery.Proofs.Json.Pointers
import Mathlib

/-!
# The walk and the schema

The walk through a value reports what the schema of documents reports.  Level by level the
violations that the errors of the schema are have the same members as those of the walk
(`same_documentSchema`).  One fault of a field can be several errors, but they are one
violation (`same_schema`), and a report is settled by its members.

The headline is `check_reports_defects`.
-/

namespace Bindery.Contract

open Json

/-! ## Lists with the same members -/

/-- The two lists have the same members. -/
def Same (vs ws : List Violation) : Prop := ∀ v, v ∈ vs ↔ v ∈ ws

namespace Same

variable {α : Type} {vs vs' ws ws' : List Violation}

theorem rfl : Same vs vs := fun _ => Iff.rfl

/-- Reports in two parts are the same if their parts are. -/
theorem append (hv : Same vs vs') (hw : Same ws ws') : Same (vs ++ ws) (vs' ++ ws') := by
  intro v
  rw [List.mem_append, List.mem_append, hv v, hw v]

/-- Reports on each of some values are the same together if each is. -/
theorem flatMap {xs : List α} {f g : α → List Violation} (h : ∀ x ∈ xs, Same (f x) (g x)) :
    Same (xs.flatMap f) (xs.flatMap g) := by
  intro v
  rw [List.mem_flatMap, List.mem_flatMap]
  exact exists_congr fun x => and_congr_right fun hx => h x hx v

end Same

/-! ## Keywords on values -/

section Keywords

variable {j v : Json} {path : List String} {ms : List (String × Json)}

/-- An error of a value at a place for which the walk has the same fault. -/
theorem violationOf_fault {place : Location} {fault : Fault} (hplace : locationOf path = place)
    (h : resolve? path j = some v) (hfault : faultAt path (some v) = fault) :
    violationOf j ⟨path, none⟩ = ⟨fault.code, place, fault.message⟩ := by
  simp only [violationOf, pointerTokens_writePointer, h, hplace, hfault]

/-- A value with one error at its place, where the walk has one violation too. -/
theorem same_error {s : Schema} {place : Location} {code : ViolationCode} {message : String}
    {vs : List Violation} (h : resolve? path j = some v) (hplace : locationOf path = place)
    (herror : s path v = [⟨path, none⟩]) (hfault : faultAt path (some v) = ⟨code, message⟩)
    (hwalk : vs = [⟨code, place, message⟩]) : Same (violationsOf j (s path v)) vs := by
  rw [herror, violationsOf, List.map_singleton, violationOf_fault hplace h hfault, hwalk]
  exact Same.rfl

/-- The errors about required fields become the violations about missing ones. -/
theorem violationsOf_required {place : Location} (fields : List String)
    (hplace : ∀ field, locationOf (path ++ [field]) = place.atField field) :
    violationsOf j (Schema.required fields path (.object ms)) = missingFields place fields ms := by
  rw [violationsOf, Schema.required, missingFields, List.map_map]
  refine List.map_congr_left fun field _ => ?_
  simp only [Function.comp_apply, violationOf, pointerTokens_writePointer, hplace]

/-- Schemas that hold together are reported one after the other. -/
theorem violationsOf_all (ss : List Schema) :
    violationsOf j (Schema.all ss path v)
      = ss.flatMap fun s => violationsOf j (s path v) := by
  rw [violationsOf, Schema.all, List.map_flatMap]
  rfl

/-- A value of the wanted type is held against the other keywords. -/
theorem violationsOf_typed {type : String} {ss : List Schema} (htype : hasType type v = true) :
    violationsOf j (Schema.all (.ofType type :: ss) path v)
      = ss.flatMap fun s => violationsOf j (s path v) := by
  have hnone : violationsOf j (Schema.ofType type path v) = [] := by
    rw [violationsOf, Schema.ofType, Schema.test, if_pos htype, List.map_nil]
  rw [violationsOf_all, List.flatMap_cons, hnone, List.nil_append]

/-- A schema for items is told item by item, by their numbers. -/
theorem same_items {s : Schema} {vs : List Json} {f : Json × Nat → List Violation}
    (h : ∀ n part, vs[n]? = some part →
      Same (violationsOf j (s (path ++ [toString n]) part)) (f (part, n))) :
    Same (violationsOf j (Schema.items s path (.array vs))) (vs.zipIdx.flatMap f) := by
  rw [violationsOf, Schema.items, List.map_flatMap]
  refine Same.flatMap ?_
  rintro ⟨part, n⟩ hmem
  exact h n part (List.mk_mem_zipIdx_iff_getElem?.mp hmem)

end Keywords

/-! ## Fields -/

/-- The schema of the values of a form. -/
def Form.schema : Form → Schema
  | .text => .ofType "string"
  | .nonEmptyText => .all [.ofType "string", .minLength 1]
  | .kind => .all [.ofType "string", .oneOf ["method", "property", "event"]]
  | .flag => .ofType "boolean"
  | .count => .all [.ofType "integer", .notNegative]
  | .list => .ofType "array"

section Fields

variable {j v : Json} {path : List String} {ms : List (String × Json)} {field : String}
  {form : Form} {place : Location}

/-- A test has one error, at the value that fails it. -/
theorem mem_test {passes : Json → Bool} {e : SchemaError} :
    e ∈ Schema.test passes path v ↔ e = ⟨path, none⟩ ∧ passes v = false := by
  rw [Schema.test]
  cases passes v <;> simp

theorem hasType_string : hasType "string" v = true ↔ v.IsText := by
  cases v <;> simp [hasType, kindWord, IsText]

theorem hasType_boolean : hasType "boolean" v = true ↔ v.IsFlag := by
  cases v <;> simp [hasType, kindWord, IsFlag]

theorem hasType_array : hasType "array" v = true ↔ v.IsArray := by
  cases v <;> simp [hasType, kindWord, IsArray]

/-- The errors of two tests side by side. -/
theorem mem_tests {p q : Json → Bool} {e : SchemaError} :
    e ∈ Schema.all [.test p, .test q] path v
      ↔ e = ⟨path, none⟩ ∧ (p v = false ∨ q v = false) := by
  simp only [Schema.all, List.flatMap_cons, List.flatMap_nil, List.append_nil, List.mem_append,
    mem_test, and_or_left]

/-- A name is at fault where the schema says so: it fails its type or its least length. -/
theorem isSome_fault?_nonEmptyText :
    (Form.nonEmptyText.fault? field v).isSome = true
      ↔ hasType "string" v = false ∨ isNotShorter 1 v = false := by
  rw [← Bool.not_eq_true, hasType_string]
  cases v with
  | string s => by_cases hs : s = "" <;> simp [Form.fault?, IsText, isNotShorter, hs]
  | _ => simp [Form.fault?, IsText]

/-- A kind is at fault where the schema says so: it fails its type or the enumeration. -/
theorem isSome_fault?_kind :
    (Form.kind.fault? field v).isSome = true
      ↔ hasType "string" v = false ∨ isOneOf ["method", "property", "event"] v = false := by
  rw [← Bool.not_eq_true (hasType _ _), hasType_string]
  cases v with
  | string s =>
      have hknown : isOneOf ["method", "property", "event"] (.string s) = false
          ↔ EntryKind.ofName? s = none := by
        rw [ofName?_eq_none_iff, ← Bool.not_eq_true, isOneOf, List.contains_iff_mem]
      rw [hknown]
      cases hkind : EntryKind.ofName? s <;> simp [Form.fault?, IsText, hkind]
  | _ => simp [Form.fault?, IsText]

/-- A number that is a count is whole and not below zero. -/
theorem isSome_fault?_count :
    (Form.count.fault? field v).isSome = true
      ↔ hasType "integer" v = false ∨ isNotNegative v = false := by
  cases v with
  | number n =>
      cases n with
      | integer i =>
          by_cases hi : i < 0 <;> simp [Form.fault?, hasType, isWhole, isNotNegative, hi]
      | real d =>
          have hparts : isCount d = false
              ↔ hasType "integer" (.number (.real d)) = false
                ∨ isNotNegative (.number (.real d)) = false := by
            rw [isCount, Bool.and_eq_false_iff]
            rfl
          rw [← hparts]
          cases hcount : isCount d <;> simp [Form.fault?, hcount]
  | _ => simp [Form.fault?, hasType, isWhole]

/-- The schema of a form finds fault with a value, once or twice, if the form does. -/
theorem mem_schema_iff (field : String) {e : SchemaError} :
    e ∈ form.schema path v ↔ e = ⟨path, none⟩ ∧ (form.fault? field v).isSome = true := by
  cases form with
  | text =>
      rw [Form.schema, Schema.ofType, mem_test, ← Bool.not_eq_true, hasType_string]
      cases v <;> simp [Form.fault?, IsText]
  | flag =>
      rw [Form.schema, Schema.ofType, mem_test, ← Bool.not_eq_true, hasType_boolean]
      cases v <;> simp [Form.fault?, IsFlag]
  | list =>
      rw [Form.schema, Schema.ofType, mem_test, ← Bool.not_eq_true, hasType_array]
      cases v <;> simp [Form.fault?, IsArray]
  | nonEmptyText =>
      rw [Form.schema, Schema.ofType, Schema.minLength, mem_tests, isSome_fault?_nonEmptyText]
  | kind =>
      rw [Form.schema, Schema.ofType, Schema.oneOf, mem_tests, isSome_fault?_kind]
  | count =>
      rw [Form.schema, Schema.ofType, Schema.notNegative, mem_tests, isSome_fault?_count]

/-- What the schema of a form finds wrong with a value is what the form finds, if the path
tells of the fault. -/
theorem same_schema {f : FieldForm} (h : resolve? path j = some v)
    (hplace : locationOf path = place)
    (hfault : ∀ fault, f.form.fault? f.name v = some fault → faultAt path (some v) = fault) :
    Same (violationsOf j (f.form.schema path v))
      ((f.form.fault? f.name v).map fun fault =>
        (⟨fault.code, place, fault.message⟩ : Violation)).toList := by
  intro violation
  rw [violationsOf, List.mem_map]
  -- the schema of a form has one error at most, and it has one where the walk finds a fault
  cases hfound : f.form.fault? f.name v with
  | none =>
      rw [Option.map_none, Option.toList_none]
      constructor
      · rintro ⟨e, he, -⟩
        have hsome := ((mem_schema_iff f.name).mp he).2
        rw [hfound] at hsome
        cases hsome
      · intro hnil
        cases hnil
  | some fault =>
      rw [Option.map_some, Option.toList_some, List.mem_singleton]
      have heq := violationOf_fault hplace h (hfault fault hfound)
      constructor
      · rintro ⟨e, he, rfl⟩
        rw [((mem_schema_iff f.name).mp he).1, heq]
      · rintro rfl
        exact ⟨⟨path, none⟩, (mem_schema_iff f.name).mpr ⟨rfl, by rw [hfound]; rfl⟩, heq⟩

/-- What the schemas of fields find wrong with a record. -/
theorem same_properties {forms : List FieldForm} {schemaOf : FieldForm → Schema}
    {told : FieldForm → Json → List Violation}
    (h : ∀ f ∈ forms, ∀ v, ms.lookup f.name = some v →
      Same (violationsOf j (schemaOf f (path ++ [f.name]) v)) (told f v)) :
    Same
      (violationsOf j
        (Schema.properties (forms.map fun f => (f.name, schemaOf f)) path (.object ms)))
      (forms.flatMap fun f => (ms.lookup f.name).toList.flatMap (told f)) := by
  rw [violationsOf, Schema.properties, List.flatMap_map, List.map_flatMap]
  refine Same.flatMap fun f hf => ?_
  simp only [Json.member?]
  cases hlookup : ms.lookup f.name with
  | none => exact Same.rfl
  | some v =>
      rw [Option.toList_some, List.flatMap_singleton]
      exact h f hf v hlookup

/-- The fault of a field as the walk reports it. -/
def faultOf (place : Location) (f : FieldForm) (v : Json) : List Violation :=
  ((f.form.fault? f.name v).map fun fault =>
    (⟨fault.code, place.atField f.name, fault.message⟩ : Violation)).toList

/-- The fields that are at fault are gone through form by form. -/
theorem faultyFields_eq (place : Location) (forms : List FieldForm) :
    faultyFields place forms ms
      = forms.flatMap fun f => (ms.lookup f.name).toList.flatMap (faultOf place f) := by
  rw [faultyFields, List.filterMap_eq_flatMap_toList]
  refine List.flatMap_congr fun f _ => ?_
  cases hlookup : ms.lookup f.name with
  | none => rfl
  | some v => rw [Option.toList_some, List.flatMap_singleton, faultOf]

/-- Most forms have one fault: the value is of another type. -/
theorem eq_wrongTypeAt {fault : Fault} (hform : form ∈ [Form.text, .flag, .list])
    (h : form.fault? field v = some fault) :
    fault = wrongTypeAt field form.expected v.kindWord := by
  simp only [List.mem_cons, List.not_mem_nil, or_false] at hform
  rcases hform with rfl | rfl | rfl <;> cases v <;> cases h <;> rfl

/-- The path to a field of a parameter tells of its fault. -/
theorem faultAt_parameterField {key index n : String} (hkey : key ≠ parentsKey)
    {f : FieldForm} (hf : f ∈ parameterForms) {fault : Fault}
    (h : f.form.fault? f.name v = some fault) :
    faultAt ([key, index, "parameters", n] ++ [f.name]) (some v) = fault := by
  have hforms : ∀ f ∈ parameterForms,
      f.form ∈ [Form.text, .flag, .list] ∧ f.form.expected = expectedAt f.name := by
    simp only [parameterForms, List.forall_mem_cons]
    simp [Form.expected, expectedAt]
  obtain ⟨hform, hexpected⟩ := hforms f hf
  rw [eq_wrongTypeAt hform h, hexpected]
  simp [faultAt, hkey]

/-- The fault that the walk reports of a kind is the one the mapping tells from the value. -/
theorem kindFault_of_form {fault : Fault} (h : Form.kind.fault? "kind" v = some fault) :
    kindFault v.kindWord (some v) = fault := by
  have hkinds : "', expected one of " ++ ", ".intercalate (EntryKind.all.map EntryKind.name)
      = "', expected one of method, property, event" := by decide
  cases v with
  | string s =>
      simp only [Form.fault?] at h
      split at h
      · cases h
      · cases h
        rw [String.append_assoc, hkinds]
        rfl
  | _ => cases h; rfl

/-- So is the fault that it reports of a name. -/
theorem nameFault_of_form {fault : Fault} (h : Form.nonEmptyText.fault? "name" v = some fault) :
    nameFault v.kindWord (some v) = fault := by
  cases v with
  | string s =>
      simp only [Form.fault?] at h
      split at h
      · next hs =>
        cases h
        simp only [nameFault, if_pos hs]
        decide
      · cases h
  | _ => cases h; rfl

/-- So is the fault that it reports of a count, negative or not whole. -/
theorem countFault_of_form {fault : Fault} (h : Form.count.fault? field v = some fault) :
    countFault field v.kindWord (some v) = fault := by
  cases v with
  | number n =>
      cases n with
      | integer i =>
          simp only [Form.fault?] at h
          split at h
          · next hi =>
            cases h
            simp only [countFault, if_pos hi]
          · cases h
      | real d =>
          simp only [Form.fault?] at h
          split at h
          · cases h
          · cases h
            rfl
  | _ => cases h; rfl

/-- The path to a field of an entry tells of its fault. -/
theorem faultAt_entryField {key index : String} (hkey : key ≠ parentsKey) {f : FieldForm}
    (hf : f ∈ entryForms) {fault : Fault} (h : f.form.fault? f.name v = some fault) :
    faultAt ([key, index] ++ [f.name]) (some v) = fault := by
  -- the mapping tells kind, name and counts apart by the field, and treats all others alike
  have hforms : ∀ f ∈ entryForms,
      f = ⟨"kind", .kind⟩ ∨ f = ⟨"name", .nonEmptyText⟩
        ∨ (f.form = .count ∧ (f.name = "arity" ∨ f.name = "required"))
        ∨ (f.form ∈ [Form.text, .flag, .list]
          ∧ ∀ found value, entryFieldFault f.name found value
            = wrongTypeAt f.name f.form.expected found) := by
    simp only [entryForms, List.forall_mem_cons]
    simp [Form.expected, expectedAt, entryFieldFault]
  have hfield : faultAt ([key, index] ++ [f.name]) (some v)
      = entryFieldFault f.name v.kindWord (some v) := by
    simp only [List.cons_append, List.nil_append, faultAt, if_neg hkey, Option.map_some,
      Option.getD_some]
  rw [hfield]
  rcases hforms f hf with rfl | rfl | ⟨hform, hname⟩ | ⟨hform, hwrong⟩
  · exact kindFault_of_form h
  · exact nameFault_of_form h
  · rw [hform] at h
    have hcount := countFault_of_form h
    rcases hname with hname | hname
    · rw [hname] at hcount ⊢
      exact hcount
    · rw [hname] at hcount ⊢
      exact hcount
  · rw [hwrong, eq_wrongTypeAt hform h]

end Fields

/-! ## Records -/

section Records

variable {j v : Json} {key : String} {i n : Nat} {ms : List (String × Json)}

/-- A path below an entry is a place at that entry. -/
theorem locationOf_entry (hkey : key ≠ parentsKey) (rest : List String) :
    locationOf (key :: toString i :: rest) = locationIn (.ofEntry key i) rest := by
  rw [locationOf, if_neg hkey, Nat.toString_eq_repr, Nat.toNat?_repr]

/-- A path that leads to a parameter is its place. -/
theorem locationOf_parameter (hkey : key ≠ parentsKey) :
    locationOf [key, toString i, "parameters", toString n]
      = (Location.ofEntry key i).atParameter n := by
  rw [locationOf_entry hkey]
  simp [locationIn]

/-- A path that leads on from a parameter is a field of it. -/
theorem locationOf_parameterField (hkey : key ≠ parentsKey) (field : String) :
    locationOf ([key, toString i, "parameters", toString n] ++ [field])
      = ((Location.ofEntry key i).atParameter n).atField field := by
  rw [List.cons_append, List.cons_append, locationOf_entry hkey]
  simp [locationIn]

/-- The schema of a parameter asks of its fields the forms that the walk asks. -/
theorem parameterSchema_eq :
    parameterSchema = .all
      [.ofType "object", .required parameterRequired,
       .properties (parameterForms.map fun f => (f.name, f.form.schema))] := rfl

/-- So both report the same of a parameter. -/
theorem same_parameterSchema (hkey : key ≠ parentsKey)
    (h : resolve? [key, toString i, "parameters", toString n] j = some v) :
    Same (violationsOf j (parameterSchema [key, toString i, "parameters", toString n] v))
      (parameterViolations ((Location.ofEntry key i).atParameter n) v) := by
  cases v with
  | object ms =>
      rw [parameterSchema_eq, violationsOf_typed (by rfl), parameterViolations]
      simp only [List.flatMap_cons, List.flatMap_nil, List.append_nil]
      rw [violationsOf_required _ (locationOf_parameterField hkey), faultyFields_eq]
      refine Same.append Same.rfl (same_properties fun f hf v hlookup => ?_)
      refine same_schema (resolve?_append h hlookup) (locationOf_parameterField hkey f.name) ?_
      exact fun fault => faultAt_parameterField hkey hf
  | _ => exact same_error h (locationOf_parameter hkey) rfl (by simp [faultAt, hkey]) rfl

theorem locationOf_entryField (hkey : key ≠ parentsKey) (field : String) :
    locationOf ([key, toString i] ++ [field]) = (Location.ofEntry key i).atField field := by
  rw [List.cons_append, List.cons_append, locationOf_entry hkey]
  simp [locationIn]

/-- The errors of the parameters of an entry. -/
theorem same_parameters (hkey : key ≠ parentsKey)
    (h : resolve? [key, toString i] j = some (.object ms)) :
    Same
      ((ms.lookup "parameters").toList.flatMap fun v =>
        violationsOf j (Schema.items parameterSchema ([key, toString i] ++ ["parameters"]) v))
      (parametersViolations (Location.ofEntry key i) ms) := by
  rw [parametersViolations]
  cases hlookup : ms.lookup "parameters" with
  | none => exact Same.rfl
  | some v =>
      rw [Option.toList_some, List.flatMap_singleton]
      have hv : resolve? ([key, toString i] ++ ["parameters"]) j = some v :=
        resolve?_append h hlookup
      cases v with
      | array vs =>
          refine same_items fun n part hpart => same_parameterSchema hkey ?_
          exact resolve?_append hv ((step?_toString _ _).trans hpart)
      | _ => exact Same.rfl

/-- The schema of a field of an entry. -/
def entryFieldSchema (f : FieldForm) : Schema :=
  if f.name = "parameters" then .all [f.form.schema, .items parameterSchema] else f.form.schema

/-- What the schemas of its fields find wrong with an entry: faults of the fields themselves,
and of the parameters. -/
theorem same_entryFields (hkey : key ≠ parentsKey)
    (h : resolve? [key, toString i] j = some (.object ms)) :
    Same
      (violationsOf j (Schema.properties (entryForms.map fun f => (f.name, entryFieldSchema f))
        [key, toString i] (.object ms)))
      (faultyFields (Location.ofEntry key i) entryForms ms
        ++ parametersViolations (Location.ofEntry key i) ms) := by
  -- the list of parameters is the only field whose schema looks further inside
  let inside : FieldForm → Json → List Violation := fun f v =>
    if f.name = "parameters" then
      violationsOf j (Schema.items parameterSchema ([key, toString i] ++ [f.name]) v)
    else []
  have hfields : ∀ f ∈ entryForms, ∀ v, ms.lookup f.name = some v →
      Same (violationsOf j (entryFieldSchema f ([key, toString i] ++ [f.name]) v))
        (faultOf (Location.ofEntry key i) f v ++ inside f v) := by
    intro f hf v hlookup
    have hown : Same (violationsOf j (f.form.schema ([key, toString i] ++ [f.name]) v))
        (faultOf (Location.ofEntry key i) f v) :=
      same_schema (resolve?_append h hlookup) (locationOf_entryField hkey f.name)
        fun fault => faultAt_entryField hkey hf
    by_cases hname : f.name = "parameters"
    · simp only [entryFieldSchema, inside, if_pos hname, violationsOf_all, List.flatMap_cons,
        List.flatMap_nil, List.append_nil]
      exact Same.append hown Same.rfl
    · simp only [entryFieldSchema, inside, if_neg hname, List.append_nil]
      exact hown
  -- so the order differs, and membership is compared
  intro x
  rw [same_properties hfields x, List.mem_append, ← same_parameters hkey h x, faultyFields_eq]
  simp only [List.mem_flatMap, List.mem_append, Option.mem_toList]
  constructor
  · rintro ⟨f, hf, v, hv, hx | hx⟩
    · exact Or.inl ⟨f, hf, v, hv, hx⟩
    · by_cases hname : f.name = "parameters"
      · simp only [inside, if_pos hname] at hx
        rw [hname] at hv hx
        exact Or.inr ⟨v, hv, hx⟩
      · simp only [inside, if_neg hname] at hx
        cases hx
  · rintro (⟨f, hf, v, hv, hx⟩ | ⟨v, hv, hx⟩)
    · exact ⟨f, hf, v, hv, Or.inl hx⟩
    · exact ⟨⟨"parameters", .list⟩, by simp [entryForms], v, hv, Or.inr hx⟩

/-- The condition of the schema on the kind of an entry. -/
def kindIs (words : List String) : Schema :=
  .all [.properties [("kind", .oneOf words)], .required ["kind"]]

/-- What depends on the kind is asked of entries that the walk asks it of. -/
theorem isEmpty_kindIs_iff {kinds : List EntryKind} {path : List String} :
    (kindIs (kinds.map EntryKind.name) path (.object ms)).isEmpty = true
      ↔ givenKind? ms ∈ kinds.map some := by
  have hwords : (kindIs (kinds.map EntryKind.name) path (.object ms)).isEmpty = true
      ↔ ∃ word ∈ kinds.map EntryKind.name, ms.lookup "kind" = some (.string word) := by
    simp only [kindIs, Schema.all, Schema.properties, Schema.required, List.flatMap_cons,
      List.flatMap_nil, List.append_nil, Json.member?]
    cases hlookup : ms.lookup "kind" with
    | none => simp [hlookup]
    | some v => cases v <;> simp [hlookup, Schema.oneOf, Schema.test, isOneOf]
  rw [hwords, List.mem_map]
  constructor
  · rintro ⟨word, hword, hlookup⟩
    obtain ⟨kind, hkind, rfl⟩ := List.mem_map.mp hword
    exact ⟨kind, hkind, ((givenKind?_eq_some_iff ms kind).mpr hlookup).symm⟩
  · rintro ⟨kind, hkind, hgiven⟩
    exact ⟨kind.name, List.mem_map_of_mem hkind, (givenKind?_eq_some_iff ms kind).mp hgiven.symm⟩

/-- Required fields may be asked for in parts. -/
theorem missingFields_append (place : Location) (fields more : List String) :
    missingFields place (fields ++ more) ms
      = missingFields place fields ms ++ missingFields place more ms := by
  rw [missingFields, List.filter_append, List.map_append]
  rfl

/-- Fields that are required of some kinds only. -/
theorem violationsOf_implies (ms : List (String × Json)) (hkey : key ≠ parentsKey)
    (kinds : List EntryKind) (fields : List String) :
    violationsOf j (Schema.implies (kindIs (kinds.map EntryKind.name)) (.required fields)
        [key, toString i] (.object ms))
      = if givenKind? ms ∈ kinds.map some then missingFields (Location.ofEntry key i) fields ms
        else [] := by
  rw [Schema.implies]
  by_cases hkind : givenKind? ms ∈ kinds.map some
  · rw [if_pos (isEmpty_kindIs_iff.mpr hkind), if_pos hkind,
      violationsOf_required _ (locationOf_entryField hkey)]
  · rw [if_neg (mt isEmpty_kindIs_iff.mp hkind), if_neg hkind]
    rfl

/-- The fields that an entry must have are those that its kind requires. -/
theorem missingFields_requiredFields (place : Location) :
    missingFields place (requiredFields ms) ms
      = missingFields place entryRequired ms
        ++ ((if givenKind? ms ∈ [EntryKind.method].map some then
              missingFields place (requiredOfKind .method) ms
            else [])
          ++ (if givenKind? ms ∈ [EntryKind.property, .event].map some then
              missingFields place (requiredOfKind .property) ms
            else [])) := by
  rw [requiredFields]
  cases givenKind? ms with
  | none => exact (List.append_nil _).symm
  | some kind =>
      simp only [missingFields_append]
      cases kind with
      | method => exact congrArg _ (List.append_nil _).symm
      | property => rfl
      | event => rfl

/-- The schema of an entry asks of its fields the forms that the walk asks, and the fields that
its kind requires. -/
theorem entrySchema_eq :
    entrySchema = .all
      [.ofType "object", .required entryRequired,
       .properties (entryForms.map fun f => (f.name, entryFieldSchema f)),
       .implies (kindIs ([EntryKind.method].map EntryKind.name))
         (.required (requiredOfKind .method)),
       .implies (kindIs ([EntryKind.property, .event].map EntryKind.name))
         (.required (requiredOfKind .property))] := rfl

/-- So both report the same of an entry. -/
theorem same_entrySchema (hkey : key ≠ parentsKey) (h : resolve? [key, toString i] j = some v) :
    Same (violationsOf j (entrySchema [key, toString i] v))
      (entryViolations (Location.ofEntry key i) v) := by
  cases v with
  | object ms =>
      have hfields := same_entryFields hkey h
      rw [entrySchema_eq, violationsOf_typed (by rfl), entryViolations,
        missingFields_requiredFields]
      simp only [List.flatMap_cons, List.flatMap_nil, List.append_nil]
      rw [violationsOf_required _ (locationOf_entryField hkey), violationsOf_implies ms hkey,
        violationsOf_implies ms hkey]
      -- the schema has the fields before what their kind requires
      intro x
      have hx := hfields x
      simp only [List.mem_append] at hx ⊢
      rw [hx]
      tauto
  | _ => exact same_error h (locationOf_entry hkey []) rfl (by simp [faultAt, hkey]) rfl

/-! ## Tables -/

/-- Both report the same of the value of an interface, entry by entry. -/
theorem same_entriesSchema (hkey : key ≠ parentsKey) (h : resolve? [key] j = some v) :
    Same (violationsOf j (entriesSchema [key] v)) (interfaceViolations key v) := by
  cases v with
  | array vs =>
      rw [entriesSchema, violationsOf_typed (by rfl), List.flatMap_singleton, interfaceViolations]
      refine same_items fun n part hpart => same_entrySchema hkey ?_
      exact resolve?_append h ((step?_toString _ _).trans hpart)
  | _ => exact same_error h rfl rfl (by simp [faultAt, hkey]) rfl

theorem locationOf_parents (child : String) (rest : List String) :
    locationOf (parentsKey :: child :: rest) = (Location.ofKey parentsKey).atField child := by
  rw [locationOf, if_pos rfl]

/-- Both report the same of the parents of a child, whose places are all alike. -/
theorem same_parentsSchema {child : String} (h : resolve? [parentsKey, child] j = some v) :
    Same (violationsOf j (parentsSchema [parentsKey, child] v)) (parentsViolations child v) := by
  cases v with
  | array vs =>
      rw [parentsSchema, violationsOf_typed (by rfl), List.flatMap_singleton, parentsViolations,
        List.filterMap_eq_flatMap_toList]
      refine same_items fun n part hpart => ?_
      have hpart' : resolve? ([parentsKey, child] ++ [toString n]) j = some part :=
        resolve?_append h ((step?_toString _ _).trans hpart)
      cases part with
      | string s => exact Same.rfl
      | _ => exact same_error hpart' (locationOf_parents child _) rfl rfl rfl
  | _ => exact same_error h (locationOf_parents child []) rfl rfl rfl

/-- Both report the same of the table of parents, child by child. -/
theorem same_tableSchema (hv : v.Distinct) (h : resolve? [parentsKey] j = some v) :
    Same (violationsOf j (tableSchema [parentsKey] v)) (tableViolations v) := by
  cases v with
  | object ms =>
      have hall : (ms.filter fun m => !([] : List String).contains m.1) = ms :=
        List.filter_eq_self.mpr fun _ _ => rfl
      rw [tableSchema, violationsOf_typed (by rfl), List.flatMap_singleton, tableViolations,
        violationsOf, Schema.additional, hall, List.map_flatMap]
      refine Same.flatMap fun m hm => same_parentsSchema ?_
      refine resolve?_append h ?_
      exact (lookup_eq_some_iff_mem ((distinct_object_iff ms).mp hv).1 m.1 m.2).mpr hm
  | _ => exact same_error h rfl rfl rfl rfl

end Records

/-! ## Whole values -/

/-- What the schemas of its members find wrong with a document. -/
theorem mem_documentSchema_iff {j : Json} {ms : List (String × Json)} {x : Violation}
    (hnodup : (ms.map Prod.fst).Nodup) :
    x ∈ violationsOf j (documentSchema [] (.object ms))
      ↔ ∃ m ∈ ms, x ∈ violationsOf j
          (if m.1 = parentsKey then tableSchema [m.1] m.2 else entriesSchema [m.1] m.2) := by
  -- the reserved key is asked for as a property, and all other keys as additional ones
  have htable : x ∈ violationsOf j
      (Schema.properties [(parentsKey, tableSchema)] [] (.object ms))
        ↔ ∃ m ∈ ms, m.1 = parentsKey ∧ x ∈ violationsOf j (tableSchema [m.1] m.2) := by
    rw [Schema.properties, List.flatMap_singleton, Json.member?]
    constructor
    · intro hx
      cases hlookup : ms.lookup parentsKey with
      | none =>
          rw [hlookup] at hx
          cases hx
      | some v =>
          rw [hlookup] at hx
          exact ⟨(parentsKey, v), (lookup_eq_some_iff_mem hnodup _ _).mp hlookup, rfl, hx⟩
    · rintro ⟨⟨key, v⟩, hm, rfl, hx⟩
      rw [(lookup_eq_some_iff_mem hnodup _ _).mpr hm]
      exact hx
  have hentries : x ∈ violationsOf j
      (Schema.additional [parentsKey] entriesSchema [] (.object ms))
        ↔ ∃ m ∈ ms, m.1 ≠ parentsKey ∧ x ∈ violationsOf j (entriesSchema [m.1] m.2) := by
    rw [violationsOf, Schema.additional, List.map_flatMap, List.mem_flatMap]
    simp only [List.mem_filter, and_assoc]
    refine exists_congr fun m => and_congr_right fun _ => and_congr_left fun _ => ?_
    simp
  rw [documentSchema, violationsOf_typed (by rfl), List.flatMap_cons, List.flatMap_singleton,
    List.mem_append, htable, hentries]
  constructor
  · rintro (⟨m, hm, hkey, hx⟩ | ⟨m, hm, hkey, hx⟩)
    · exact ⟨m, hm, by rwa [if_pos hkey]⟩
    · exact ⟨m, hm, by rwa [if_neg hkey]⟩
  · rintro ⟨m, hm, hx⟩
    by_cases hkey : m.1 = parentsKey
    · rw [if_pos hkey] at hx
      exact Or.inl ⟨m, hm, hkey, hx⟩
    · rw [if_neg hkey] at hx
      exact Or.inr ⟨m, hm, hkey, hx⟩

/-- The schema finds wrong what the walk finds wrong. -/
theorem same_documentSchema {j : Json} (hj : j.Distinct) :
    Same (violationsOf j (documentSchema [] j)) (violations j) := by
  have hroot : resolve? [] j = some j := rfl
  cases j with
  | object ms =>
      obtain ⟨hnodup, hvalues⟩ := (distinct_object_iff ms).mp hj
      have hresolve : ∀ m ∈ ms, resolve? [m.1] (.object ms) = some m.2 := fun m hm =>
        resolve?_append hroot ((lookup_eq_some_iff_mem hnodup m.1 m.2).mpr hm)
      -- both go by the key: the table under the reserved one, entries under any other
      have hmember : ∀ m ∈ ms, Same
          (violationsOf (.object ms)
            (if m.1 = parentsKey then tableSchema [m.1] m.2 else entriesSchema [m.1] m.2))
          (memberViolations m.1 m.2) := by
        intro m hm
        have hv := hresolve m hm
        rw [memberViolations]
        by_cases hkey : m.1 = parentsKey
        · rw [if_pos hkey, if_pos hkey]
          rw [hkey] at hv ⊢
          exact same_tableSchema (hvalues m hm) hv
        · rw [if_neg hkey, if_neg hkey]
          exact same_entriesSchema hkey hv
      intro x
      rw [mem_documentSchema_iff hnodup, violations, ← Same.flatMap hmember x, List.mem_flatMap]
  | _ => exact same_error hroot rfl rfl rfl rfl

/-- **THE REPORT**: a check reports what the schema of documents reports, and that are the
defects of the value, each of them once, with its code and its place, and nothing else; so it
reports nothing exactly if there is no defect.  A value that is no object has that one
defect. -/
theorem check_reports_defects {j : Json} (hj : j.Distinct) :
    check j = schemaReport j
      ∧ Lists (check j) (DocumentDefect j)
      ∧ (check j = [] ↔ ∀ d, ¬ DocumentDefect j d)
      ∧ (¬ j.IsObject → ∀ d, DocumentDefect j d ↔ d = .document) := by
  have hlists : Lists (check j) (DocumentDefect j) := lists_check hj
  have hschema : schemaReport j = check j :=
    destutter_mergeSort_eq_check hj (same_documentSchema hj)
  exact ⟨hschema.symm, hlists, hlists.eq_nil_iff,
    fun hobject d => documentDefect_iff_of_not_object hobject⟩

/-- A value with an entry of an unknown kind, and with a number among the parents. -/
def gadget : Json :=
  .object
    [("Node", .array [.object [("kind", .string "gadget"), ("name", .string "a")]]),
     (parentsKey, .object [("Node", .array [.string "Base", Json.ofNat 1])])]

/-- The report on it has its defects, the unknown kind and the second parent among them. -/
theorem check_reports_gadget :
    gadget.Distinct ∧ check gadget = schemaReport gadget
      ∧ Lists (check gadget) (DocumentDefect gadget)
      ∧ DocumentDefect gadget (.faulty "Node" 0 "kind" .unknownKind)
      ∧ DocumentDefect gadget (.parent "Node" 1) := by
  have hdistinct : gadget.Distinct := by
    rw [gadget]
    simp [Json.Distinct, DistinctMembers, DistinctItems, Json.ofNat, parentsKey]
  obtain ⟨hschema, hlists, -⟩ := check_reports_defects hdistinct
  refine ⟨hdistinct, hschema, hlists, ?_, ?_⟩
  · exact .entries (by decide) rfl (.entry rfl (.faulty rfl (.unknownKind (by decide))))
  · exact .table rfl (.parents rfl (.parent rfl id))

end Bindery.Contract
