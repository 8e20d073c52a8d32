import Bindery.Proofs.Contract.Places
import Bindery.Proofs.Contract.SchemaReport

/-!
# Where violations point

The written path of a violation, taken apart as a pointer, leads to the value that the violation
complains about: one that is not what it has to be at that place (`Offends`), and of which code and
message are told.  Two kinds of violations have no value of their own to point at.  A field that is
missing is pointed at where it would be, in an object that lacks it (`Lacks`), and a parent that is
no text is placed at the list of parents.  These are the three cases of `Points`.

There is one lemma for each function of the walk, which is given that the path so far leads to the
value that is walked through; a key is never looked at as a text, so it does not matter which
characters it has.  The headline is `violation_points`.
-/

namespace Bindery.Contract

open Json

/-! ## Complaints -/

/-- What is wrong with the value at the end of a path, with the code that says so. -/
inductive Offends : List String → Json → ViolationCode → Prop where
  | document {x : Json} : ¬ x.IsObject → Offends [] x .documentNotObject
  | table {x : Json} : ¬ x.IsObject → Offends [parentsKey] x .extendsNotObject
  | parents {child : String} {x : Json} :
      ¬ x.IsArray → Offends [parentsKey, child] x .parentsNotArray
  | entries {key : String} {x : Json} :
      key ≠ parentsKey → ¬ x.IsArray → Offends [key] x .entriesNotArray
  | entry {key : String} {i : Nat} {x : Json} :
      key ≠ parentsKey → ¬ x.IsObject → Offends [key, toString i] x .entryNotObject
  | field {key field : String} {i : Nat} {x : Json} {code : ViolationCode} :
      key ≠ parentsKey → EntryFault field x code → Offends [key, toString i, field] x code
  | parameter {key : String} {i n : Nat} {x : Json} :
      key ≠ parentsKey → ¬ x.IsObject →
        Offends [key, toString i, "parameters", toString n] x .parameterNotObject
  | parameterField {key field : String} {i n : Nat} {x : Json} :
      key ≠ parentsKey → ParameterFault field x →
        Offends [key, toString i, "parameters", toString n, field] x .wrongFieldType

/-- An object at the end of a path does not have a field that is required there. -/
inductive Lacks : List String → List (String × Json) → String → Prop where
  | entry {key field : String} {i : Nat} {ms : List (String × Json)} :
      key ≠ parentsKey → Requires (.object ms) field → ms.lookup field = none →
        Lacks [key, toString i] ms field
  | parameter {key field : String} {i n : Nat} {ms : List (String × Json)} :
      key ≠ parentsKey → field ∈ ["name", "type"] → ms.lookup field = none →
        Lacks [key, toString i, "parameters", toString n] ms field

/-- The violation points at what it complains about. -/
inductive Points (j : Json) (v : Violation) : Prop where
  /-- The path leads to the value that is wrong. -/
  | value {path : List String} {x : Json} :
      pointerTokens v.location.path = path → resolve? path j = some x → Offends path x v.code →
        faultAt path (some x) = ⟨v.code, v.message⟩ → Points j v
  /-- The last token names a field, and what is in front of it leads to an object without it. -/
  | missing {path : List String} {ms : List (String × Json)} {field : String} :
      v.code = .missingField → v.message = "missing required field '" ++ field ++ "'" →
        pointerTokens v.location.path = path ++ [field] →
        resolve? path j = some (.object ms) → Lacks path ms field → Points j v
  /-- The path leads to the parents of a child, of which one is no text. -/
  | parent {child : String} {items : List Json} {n : Nat} {p : Json} :
      v = parentViolation child n p → pointerTokens v.location.path = [parentsKey, child] →
        resolve? [parentsKey, child] j = some (.array items) → items[n]? = some p →
        ¬ p.IsText → Points j v

section Walk

variable {j x : Json} {v : Violation} {path : List String} {place : Location}
  {ms : List (String × Json)} {key child : String} {i n : Nat}

/-- One violation that tells of the value at its place. -/
theorem points_of_mem_singleton {code : ViolationCode} {message : String}
    (h : resolve? path j = some x) (hv : v ∈ [(⟨code, place, message⟩ : Violation)])
    (hplace : place.tokens = path) (hoffends : Offends path x code)
    (hfault : faultAt path (some x) = ⟨code, message⟩) : Points j v := by
  obtain rfl := List.mem_singleton.mp hv
  exact .value ((pointerTokens_path place).trans hplace) h hoffends hfault

/-! ## Fields -/

/-- A field that is missing is pointed at in the object that lacks it. -/
theorem points_of_mem_missingFields {fields : List String}
    (hplace : ∀ field, (place.atField field).tokens = path ++ [field])
    (h : resolve? path j = some (.object ms))
    (hlacks : ∀ field ∈ fields, ms.lookup field = none → Lacks path ms field)
    (hv : v ∈ missingFields place fields ms) : Points j v := by
  obtain ⟨field, hfield, rfl⟩ := List.mem_map.mp hv
  obtain ⟨hfield, hnone⟩ := List.mem_filter.mp hfield
  refine .missing rfl rfl ((pointerTokens_path _).trans (hplace field)) h ?_
  exact hlacks field hfield (Option.isNone_iff_eq_none.mp hnone)

/-- A field that is at fault is pointed at itself. -/
theorem points_of_mem_faultyFields {forms : List FieldForm}
    (hplace : ∀ field, (place.atField field).tokens = path ++ [field])
    (h : resolve? path j = some (.object ms))
    (hfault : ∀ f ∈ forms, ∀ x fault, f.form.fault? f.name x = some fault →
      Offends (path ++ [f.name]) x fault.code ∧ faultAt (path ++ [f.name]) (some x) = fault)
    (hv : v ∈ faultyFields place forms ms) : Points j v := by
  obtain ⟨f, hf, hv⟩ := List.mem_filterMap.mp hv
  split at hv
  · cases hv
  · next x hlookup =>
    obtain ⟨fault, hfound, rfl⟩ := Option.map_eq_some_iff.mp hv
    obtain ⟨hoffends, htold⟩ := hfault f hf x fault hfound
    exact .value ((pointerTokens_path _).trans (hplace f.name)) (resolve?_append h hlookup) hoffends
      htold

/-- The code of a fault that a form finds. -/
theorem faultCode?_of_fault? {f : FieldForm} {fault : Fault}
    (h : f.form.fault? f.name x = some fault) : f.form.faultCode? x = some fault.code := by
  rw [← map_code_fault? f.form f.name, h, Option.map_some]

/-! ## Records -/

/-- What is reported of a parameter points into it, given that the path so far leads to it. -/
theorem points_of_mem_parameterViolations (hkey : key ≠ parentsKey)
    (h : resolve? [key, toString i, "parameters", toString n] j = some x)
    (hv : v ∈ parameterViolations ((Location.ofEntry key i).atParameter n) x) : Points j v := by
  cases x with
  | object ms =>
      rcases List.mem_append.mp hv with hv | hv
      · exact points_of_mem_missingFields (fun _ => rfl) h
          (fun field hfield hnone => .parameter hkey hfield hnone) hv
      · refine points_of_mem_faultyFields (fun _ => rfl) h (fun f hf x fault hfault => ?_) hv
        obtain ⟨hwrong, hcode⟩ := parameterFault_iff.mp ⟨f, hf, rfl, faultCode?_of_fault? hfault⟩
        rw [hcode]
        exact ⟨.parameterField hkey hwrong, faultAt_parameterField hkey hf hfault⟩
  | _ =>
      exact points_of_mem_singleton h hv rfl (.parameter hkey id) (by simp [faultAt, hkey])

/-- What is reported of parameters points into one of them, by its number. -/
theorem points_of_mem_parametersViolations (hkey : key ≠ parentsKey)
    (h : resolve? [key, toString i] j = some (.object ms))
    (hv : v ∈ parametersViolations (Location.ofEntry key i) ms) : Points j v := by
  rw [parametersViolations] at hv
  split at hv
  · next items hlookup =>
    obtain ⟨⟨p, n⟩, hmem, hv⟩ := List.mem_flatMap.mp hv
    have hitem : items[n]? = some p := List.mk_mem_zipIdx_iff_getElem?.mp hmem
    have hlist : resolve? ([key, toString i] ++ ["parameters"]) j = some (.array items) :=
      resolve?_append h hlookup
    have hp : resolve? ([key, toString i] ++ ["parameters"] ++ [toString n]) j = some p :=
      resolve?_append hlist ((step?_toString items n).trans hitem)
    exact points_of_mem_parameterViolations hkey hp hv
  · cases hv

/-- What is reported of an entry points into the entry. -/
theorem points_of_mem_entryViolations (hkey : key ≠ parentsKey)
    (h : resolve? [key, toString i] j = some x)
    (hv : v ∈ entryViolations (Location.ofEntry key i) x) : Points j v := by
  cases x with
  | object ms =>
      rcases List.mem_append.mp hv with hv | hv
      · rcases List.mem_append.mp hv with hv | hv
        · exact points_of_mem_missingFields (fun _ => rfl) h
            (fun field hfield hnone => .entry hkey ((requires_iff ms field).mpr hfield) hnone) hv
        · refine points_of_mem_faultyFields (fun _ => rfl) h (fun f hf x fault hfault => ?_) hv
          have hwrong : EntryFault f.name x fault.code :=
            .of_form hf (faultCode?_of_fault? hfault)
          exact ⟨.field hkey hwrong, faultAt_entryField hkey hf hfault⟩
      · exact points_of_mem_parametersViolations hkey h hv
  | _ => exact points_of_mem_singleton h hv rfl (.entry hkey id) (by simp [faultAt, hkey])

/-! ## Tables -/

/-- What is reported of an interface points to its value or into one of its entries. -/
theorem points_of_mem_interfaceViolations (hkey : key ≠ parentsKey) (h : resolve? [key] j = some x)
    (hv : v ∈ interfaceViolations key x) : Points j v := by
  cases x with
  | array items =>
      obtain ⟨⟨e, i⟩, hmem, hv⟩ := List.mem_flatMap.mp hv
      have hitem : items[i]? = some e := List.mk_mem_zipIdx_iff_getElem?.mp hmem
      have he : resolve? ([key] ++ [toString i]) j = some e :=
        resolve?_append h ((step?_toString items i).trans hitem)
      exact points_of_mem_entryViolations hkey he hv
  | _ => exact points_of_mem_singleton h hv rfl (.entries hkey id) (by simp [faultAt, hkey])

/-- What is reported of the parents of a child points to them. -/
theorem points_of_mem_parentsViolations (h : resolve? [parentsKey, child] j = some x)
    (hv : v ∈ parentsViolations child x) : Points j v := by
  cases x with
  | array items =>
      obtain ⟨⟨p, n⟩, hmem, hv⟩ := List.mem_filterMap.mp hv
      have hitem : items[n]? = some p := List.mk_mem_zipIdx_iff_getElem?.mp hmem
      have hparent : v = parentViolation child n p ∧ ¬ p.IsText := by
        cases p with
        | string s => cases hv
        | _ =>
            cases hv
            exact ⟨rfl, id⟩
      obtain ⟨rfl, htext⟩ := hparent
      exact .parent rfl (pointerTokens_path _) h hitem htext
  | _ => exact points_of_mem_singleton h hv rfl (.parents id) rfl

/-- What is reported of the table points into it; its keys are distinct, so that a key leads to
the value it was reported with. -/
theorem points_of_mem_tableViolations (hx : x.Distinct) (h : resolve? [parentsKey] j = some x)
    (hv : v ∈ tableViolations x) : Points j v := by
  cases x with
  | object ms =>
      obtain ⟨⟨child, parents⟩, hmem, hv⟩ := List.mem_flatMap.mp hv
      have hlookup : ms.lookup child = some parents :=
        (lookup_eq_some_iff_mem ((distinct_object_iff ms).mp hx).1 child parents).mpr hmem
      exact points_of_mem_parentsViolations (resolve?_append h hlookup) hv
  | _ => exact points_of_mem_singleton h hv rfl (.table id) rfl

end Walk

/-! ## Whole values -/

/-- **EVERY VIOLATION** of a walk points at what it complains about. -/
theorem points_of_mem_violations {j : Json} (hj : j.Distinct) {v : Violation}
    (hv : v ∈ violations j) : Points j v := by
  have hroot : resolve? [] j = some j := rfl
  cases j with
  | object ms =>
      obtain ⟨hnodup, hvalues⟩ := (distinct_object_iff ms).mp hj
      obtain ⟨⟨key, x⟩, hmem, hv⟩ := List.mem_flatMap.mp hv
      have hlookup : ms.lookup key = some x := (lookup_eq_some_iff_mem hnodup key x).mpr hmem
      have hx : resolve? [key] (.object ms) = some x := resolve?_append hroot hlookup
      simp only [memberViolations] at hv
      split at hv
      · next hkey =>
        subst hkey
        exact points_of_mem_tableViolations (hvalues _ hmem) hx hv
      · next hkey => exact points_of_mem_interfaceViolations hkey hx hv
  | _ => exact points_of_mem_singleton hroot hv rfl (.document id) rfl

/-- **VIOLATIONS POINT AT WHAT THEY COMPLAIN ABOUT**: the written path of a violation leads to the
value that is not what it has to be, of which code and message tell; for a parent that is no text,
to the list it stands in; and for a field that is missing, to where it would be in an object that
lacks it.  No key is an exception, be it empty, like an index, or with slashes and tildes. -/
theorem violation_points {j : Json} (hj : j.Distinct) {v : Violation} (hv : v ∈ check j) :
    Points j v :=
  points_of_mem_violations hj (List.mem_mergeSort.mp hv)

/-- Keys that look like indices, are empty, or have the characters of escapes. -/
def oddKeys : Json :=
  .object
    [("0", .array [.object [("kind", .string "event"), ("name", .string "a")]]),
     ("", .null), ("~1/", .boolean true),
     (parentsKey, .object [("a/b~01", .array [.string "Base", .null]), ("", .null)])]

/-- The path to a field that is missing under such a key, and to the parents of such a child. -/
theorem violation_points_oddKeys :
    oddKeys.Distinct
      ∧ ((⟨.missingField, ⟨some "0", some 0, none, some "type"⟩,
          "missing required field 'type'"⟩ : Violation) ∈ check oddKeys
        ∧ Points oddKeys ⟨.missingField, ⟨some "0", some 0, none, some "type"⟩,
          "missing required field 'type'"⟩)
      ∧ (parentViolation "a/b~01" 1 .null ∈ check oddKeys
        ∧ (parentViolation "a/b~01" 1 .null).location.path = "/__extends__/a~1b~001"
        ∧ Points oddKeys (parentViolation "a/b~01" 1 .null)) := by
  have hdistinct : oddKeys.Distinct := by
    rw [oddKeys]
    simp [Json.Distinct, DistinctMembers, DistinctItems, parentsKey]
  have hmissing : (⟨.missingField, ⟨some "0", some 0, none, some "type"⟩,
      "missing required field 'type'"⟩ : Violation) ∈ check oddKeys :=
    List.mem_mergeSort.mpr (by decide)
  have hparent : parentViolation "a/b~01" 1 .null ∈ check oddKeys :=
    List.mem_mergeSort.mpr (by decide)
  exact ⟨hdistinct, ⟨hmissing, violation_points hdistinct hmissing⟩, hparent, by decide,
    violation_points hdistinct hparent⟩

end Bindery.Contract
