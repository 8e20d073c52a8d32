import Bindery.Proofs.Contract.Report
import Bindery.Proofs.Json.Tokens
import Mathlib.Data.List.Destutter

/-!
# Reports in order

No two violations that the walk finds are equal (`nodup_violations`): defects of one code and
one place are parents of one interface, and their messages tell them apart.  The order of
reports, too, tells all of them apart (`eq_of_compareIn`).  So a report is settled by its
members: whatever list has the violations as members, sorting it and leaving out neighbours
that are equal gives the report of the check (`destutter_mergeSort_eq_check`).
-/

namespace Bindery.Contract

open Json Text

/-! ## Different violations -/

namespace Lists

variable {vs : List Violation} {P : Defect → Prop}

/-- A violation of a report tells of a defect. -/
theorem exists_defect (h : Lists vs P) {v : Violation} (hv : v ∈ vs) :
    ∃ d, P d ∧ v.code = d.code ∧ v.location = d.location := by
  obtain ⟨ds, -, hmem, hmap⟩ := h
  have hpair : (v.code, v.location) ∈ ds.map fun d => (d.code, d.location) := by
    rw [← hmap]
    exact List.mem_map_of_mem hv
  obtain ⟨d, hd, heq⟩ := List.mem_map.mp hpair
  exact ⟨d, (hmem d).mp hd, (congrArg Prod.fst heq).symm, (congrArg Prod.snd heq).symm⟩

/-- A defect of a report is told of by a violation. -/
theorem exists_violation (h : Lists vs P) {d : Defect} (hd : P d) :
    ∃ v ∈ vs, v.code = d.code ∧ v.location = d.location := by
  obtain ⟨ds, -, hmem, hmap⟩ := h
  have hpair : (d.code, d.location) ∈ vs.map fun v => (v.code, v.location) := by
    rw [hmap]
    exact List.mem_map_of_mem ((hmem d).mpr hd)
  obtain ⟨v, hv, heq⟩ := List.mem_map.mp hpair
  exact ⟨v, hv, congrArg Prod.fst heq, congrArg Prod.snd heq⟩

/-- Violations are different if code and place tell the defects apart. -/
theorem nodup (h : Lists vs P) {told : ViolationCode → Location → Defect}
    (htold : ∀ d, P d → told d.code d.location = d) : vs.Nodup := by
  obtain ⟨ds, hnodup, hmem, hmap⟩ := h
  refine List.Nodup.of_map (fun v => (v.code, v.location)) ?_
  rw [hmap]
  refine hnodup.map_on fun d hd e he heq => ?_
  obtain ⟨hcode, hlocation⟩ := Prod.mk.inj heq
  rw [← htold d ((hmem d).mp hd), hcode, hlocation, htold e ((hmem e).mp he)]

end Lists

/-- The defect of the entries of an interface that a code and a place tell of. -/
def entriesDefectAt (interface : String) (code : ViolationCode) (l : Location) : Defect :=
  match l.index, l.parameter, l.field with
  | none, _, _ => .entries interface
  | some index, none, none => .entry interface index
  | some index, none, some field =>
      if code = .missingField then .missing interface index field
      else .faulty interface index field code
  | some index, some n, none => .parameter interface index n
  | some index, some n, some field =>
      if code = .missingField then .missingIn interface index n field
      else .faultyIn interface index n field

section Entries

variable {interface field : String} {index n : Nat} {d : Defect} {p e v : Json}
  {code : ViolationCode}

/-- A fault of a field that is there is not that it is missing. -/
theorem EntryFault.code_ne (h : EntryFault field v code) : code ≠ .missingField := by
  cases h <;> simp

/-- Code and place tell a defect of a parameter. -/
theorem ParameterDefect.eq_at (h : ParameterDefect interface index n p d) :
    entriesDefectAt interface d.code d.location = d := by
  cases h <;> rfl

/-- Code and place tell a defect of an entry. -/
theorem EntryDefect.eq_at (h : EntryDefect interface index e d) :
    entriesDefectAt interface d.code d.location = d := by
  cases h with
  | form => rfl
  | missing => rfl
  | faulty _ hfault => exact if_neg hfault.code_ne
  | parameter _ _ hd => exact hd.eq_at

/-- Code and place tell a defect of the value of an interface. -/
theorem EntriesDefect.eq_at (h : EntriesDefect interface v d) :
    entriesDefectAt interface d.code d.location = d := by
  cases h with
  | form => rfl
  | entry _ hd => exact hd.eq_at

end Entries

/-! ## Different parents -/

/-- A number that something other than a digit follows is told by the text. -/
theorem eq_of_toString_append {m n : Nat} {c d : Char} {cs ds : List Char}
    (hc : isAsciiDigit c = false) (hd : isAsciiDigit d = false)
    (h : (toString m).toList ++ c :: cs = (toString n).toList ++ d :: ds) : m = n := by
  have hdigits : ∀ (k : Nat) {c : Char} {cs : List Char}, isAsciiDigit c = false →
      ((toString k).toList ++ c :: cs).takeWhile isAsciiDigit = Nat.toDigits 10 k := by
    intro k c cs hc
    rw [Nat.toString_eq_ofList_toDigits, String.toList_ofList,
      List.takeWhile_append_of_pos fun _ => isAsciiDigit_of_mem_toDigits,
      List.takeWhile_cons_of_neg (by simp [hc]), List.append_nil]
  have heq : Nat.toDigits 10 m = Nat.toDigits 10 n := by
    rw [← hdigits m hc, h, hdigits n hd]
  rw [← Nat.ofDigitChars_ten_toDigits (n := m), heq, Nat.ofDigitChars_ten_toDigits]

/-- The violation of a parent that is no text. -/
def parentViolation (child : String) (n : Nat) (p : Json) : Violation :=
  ⟨.parentNotString, (Location.ofKey parentsKey).atField child,
    "parent " ++ toString n ++ " of '" ++ child ++ "' must be a string, found " ++ p.kindWord⟩

/-- The message of a parent tells which one it is. -/
theorem eq_of_parentViolation {child : String} {m n : Nat} {p q : Json}
    (h : parentViolation child m p = parentViolation child n q) : m = n := by
  have hmessage := congrArg (fun v => v.message.toList) h
  simp only [parentViolation, String.toList_append, List.append_assoc,
    List.append_cancel_left_eq] at hmessage
  exact eq_of_toString_append (c := ' ') (d := ' ') rfl rfl hmessage

/-- Each parent that is no text is reported by its number. -/
theorem nodup_parentsViolations (child : String) (v : Json) :
    (parentsViolations child v).Nodup := by
  cases v with
  | array items =>
      rw [parentsViolations]
      refine List.Pairwise.filterMap _ ?_ (pairwise_zipIdx items)
      rintro ⟨p, m⟩ ⟨q, n⟩ hne v hp w hq rfl
      have hp : v = parentViolation child m p := by cases p <;> cases hp <;> rfl
      have hq : v = parentViolation child n q := by cases q <;> cases hq <;> rfl
      exact hne (eq_of_parentViolation (hp.symm.trans hq))
  | _ => exact List.nodup_singleton _

/-- A violation of the parents of an interface is placed there. -/
theorem field_of_mem_parentsViolations {child : String} {v : Json} {x : Violation}
    (hx : x ∈ parentsViolations child v) : x.location.field = some child := by
  obtain ⟨d, hd, -, hlocation⟩ := (lists_parentsViolations child v).exists_defect hx
  rw [hlocation, hd.location]
  rfl

/-- The children are distinct, so that no two reports about parents agree. -/
theorem nodup_tableViolations {v : Json} (hv : v.Distinct) : (tableViolations v).Nodup := by
  cases v with
  | object ms =>
      rw [tableViolations, List.nodup_flatMap]
      refine ⟨fun m _ => nodup_parentsViolations m.1 m.2, ?_⟩
      refine (List.pairwise_map.mp ((distinct_object_iff ms).mp hv).1).imp ?_
      intro m m' hne x hx hx'
      exact hne (Option.some.inj ((field_of_mem_parentsViolations hx).symm.trans
        (field_of_mem_parentsViolations hx')))
  | _ => exact List.nodup_singleton _

/-! ## The walk -/

/-- A violation of a member of a document is placed there. -/
theorem interface_of_mem_memberViolations {key : String} {v : Json} {x : Violation}
    (hv : v.Distinct) (hx : x ∈ memberViolations key v) : x.location.interface = some key := by
  rw [memberViolations] at hx
  split at hx
  · next hkey =>
    obtain ⟨d, hd, -, hlocation⟩ := (lists_tableViolations hv).exists_defect hx
    rw [hlocation, hd.location, hkey]
  · obtain ⟨d, hd, -, hlocation⟩ := (lists_interfaceViolations key v).exists_defect hx
    rw [hlocation, hd.location]

/-- A violation of an object is placed at one of its keys. -/
theorem interface_of_mem_violations {ms : List (String × Json)} {x : Violation}
    (hj : (Json.object ms).Distinct) (hx : x ∈ violations (.object ms)) :
    ∃ key ∈ topKeys (.object ms), x.location.interface = some key := by
  obtain ⟨m, hm, hx⟩ := List.mem_flatMap.mp hx
  have hv := ((distinct_object_iff ms).mp hj).2 m hm
  exact ⟨m.1, List.mem_map_of_mem hm, interface_of_mem_memberViolations hv hx⟩

/-- No member is reported for one thing twice. -/
theorem nodup_memberViolations {key : String} {v : Json} (hv : v.Distinct) :
    (memberViolations key v).Nodup := by
  rw [memberViolations]
  split
  · exact nodup_tableViolations hv
  · exact (lists_interfaceViolations key v).nodup fun _ => EntriesDefect.eq_at

/-- The walk does not find a violation twice. -/
theorem nodup_violations {j : Json} (hj : j.Distinct) : (violations j).Nodup := by
  cases j with
  | object ms =>
      obtain ⟨hnodup, hvalues⟩ := (distinct_object_iff ms).mp hj
      rw [violations, List.nodup_flatMap]
      refine ⟨fun m hm => nodup_memberViolations (hvalues m hm), ?_⟩
      refine (List.pairwise_map.mp hnodup).imp_of_mem ?_
      intro m m' hm hm' hne x hx hx'
      exact hne (Option.some.inj
        ((interface_of_mem_memberViolations (hvalues m hm) hx).symm.trans
          (interface_of_mem_memberViolations (hvalues m' hm') hx')))
  | _ => exact List.nodup_singleton _

/-! ## The order -/

section Order

variable {keys : List String} {a b : Violation} {vs ws : List Violation}

instance (keys : List String) : Std.TransCmp (compareIn keys) := by
  show Std.TransCmp
    (compareLex (compareOn fun v : Violation => keyPosition keys v.location) <|
      compareLex (compareOn fun v => v.location.index) <|
      compareLex (compareOn fun v => v.location.parameter) <|
      compareLex (compareOn fun v => v.location.field) <|
      compareLex (compareOn fun v => v.code.number) <|
      compareOn fun v => v.message)
  infer_instance

/-- Each code has a number of its own. -/
theorem number_injective : Function.Injective ViolationCode.number := by
  intro c d h
  cases c <;> cases d <;> first | rfl | cases h

/-- The position of a key tells which key it is. -/
theorem eq_of_idxOf? {key key' : String} (hkey : key ∈ keys)
    (h : keys.idxOf? key = keys.idxOf? key') : key = key' := by
  cases hposition : keys.idxOf? key with
  | none => exact absurd hkey (List.idxOf?_eq_none_iff.mp hposition)
  | some i =>
      obtain ⟨hi, hitem, -⟩ := List.idxOf?_eq_some_iff.mp hposition
      obtain ⟨_, hitem', -⟩ := List.idxOf?_eq_some_iff.mp (h.symm.trans hposition)
      exact hitem.symm.trans hitem'

/-- Violations under the keys of a document are equal if the order does not part them. -/
theorem eq_of_compareIn (ha : ∃ key ∈ keys, a.location.interface = some key)
    (hb : ∃ key ∈ keys, b.location.interface = some key) (h : compareIn keys a b = .eq) :
    a = b := by
  obtain ⟨key, hkey, hplace⟩ := ha
  obtain ⟨key', -, hplace'⟩ := hb
  simp only [compareIn, Ordering.then_eq_eq, Std.LawfulEqCmp.compare_eq_iff_eq, keyPosition,
    hplace, hplace'] at h
  obtain ⟨hposition, hindex, hparameter, hfield, hcode, hmessage⟩ := h
  have hinterface : a.location.interface = b.location.interface := by
    rw [hplace, hplace', eq_of_idxOf? hkey hposition]
  obtain ⟨code, ⟨interface, index, parameter, field⟩, message⟩ := a
  obtain ⟨code', ⟨interface', index', parameter', field'⟩, message'⟩ := b
  cases number_injective hcode
  cases hmessage
  cases hinterface
  cases hindex
  cases hparameter
  cases hfield
  rfl

/-- A sorted list is in order. -/
theorem pairwise_isLE_mergeSort (keys : List String) : ∀ us : List Violation,
    (us.mergeSort fun a b => (compareIn keys a b).isLE).Pairwise
      fun a b => (compareIn keys a b).isLE = true := by
  refine List.pairwise_mergeSort (fun _ _ _ => Std.TransCmp.isLE_trans) fun a b => ?_
  have hswap : compareIn keys b a = (compareIn keys a b).swap := Std.OrientedCmp.eq_swap
  rw [Bool.or_eq_true, hswap]
  cases compareIn keys a b <;> simp

/-- Sorting a list and leaving out neighbours that are equal depends on the members alone, if
the order tells them apart. -/
theorem destutter_mergeSort_eq (hws : ws.Nodup) (hsame : ∀ v, v ∈ vs ↔ v ∈ ws)
    (happart : ∀ a ∈ ws, ∀ b ∈ ws, compareIn keys a b = .eq → a = b) :
    (vs.mergeSort fun a b => (compareIn keys a b).isLE).destutter (· ≠ ·)
      = ws.mergeSort fun a b => (compareIn keys a b).isLE := by
  have hsorted := pairwise_isLE_mergeSort keys
  have hantisymm : ∀ a ∈ ws, ∀ b ∈ ws, (compareIn keys a b).isLE = true →
      (compareIn keys b a).isLE = true → a = b :=
    fun a ha b hb hab hba => happart a ha b hb (Std.OrientedCmp.isLE_antisymm hab hba)
  -- an order in which neighbours that are not parted are equal, on all violations
  let parts : Violation → Violation → Prop := fun a b =>
    (compareIn keys a b).isLE = true ∧ ((compareIn keys b a).isLE = true → a = b)
  have hparts : Std.Antisymm parts := ⟨fun a b hab hba => hab.2 hba.1⟩
  have hpairwise : (vs.mergeSort fun a b => (compareIn keys a b).isLE).Pairwise parts := by
    refine (hsorted vs).imp_of_mem fun {a b} ha hb hab => ⟨hab, ?_⟩
    rw [List.mem_mergeSort, hsame] at ha hb
    exact hantisymm a ha b hb hab
  rw [hpairwise.destutter_eq_dedup]
  refine List.Perm.eq_of_pairwise ?_ ((hsorted vs).sublist (List.dedup_sublist _)) (hsorted ws) ?_
  · intro a b ha hb
    rw [List.mem_dedup, List.mem_mergeSort, hsame] at ha
    rw [List.mem_mergeSort] at hb
    exact hantisymm a ha b hb
  · rw [List.perm_ext_iff_of_nodup (List.nodup_dedup _)
      ((List.mergeSort_perm ws _).nodup_iff.mpr hws)]
    intro v
    rw [List.mem_dedup, List.mem_mergeSort, List.mem_mergeSort, hsame]

end Order

/-- The order of reports tells the violations of a value apart. -/
theorem eq_of_compareIn_topKeys {j : Json} (hj : j.Distinct) :
    ∀ a ∈ violations j, ∀ b ∈ violations j, compareIn (topKeys j) a b = .eq → a = b := by
  cases j with
  | object ms =>
      exact fun a ha b hb =>
        eq_of_compareIn (interface_of_mem_violations hj ha) (interface_of_mem_violations hj hb)
  | _ =>
      intro a ha b hb _
      rw [List.mem_singleton.mp ha, List.mem_singleton.mp hb]

/-- **REPORTS ARE SETTLED BY THEIR MEMBERS**: whatever list has the violations of a value as
members, with violations repeated and in any order, sorting it and leaving out neighbours that
are equal gives the report of the check. -/
theorem destutter_mergeSort_eq_check {j : Json} {vs : List Violation} (hj : j.Distinct)
    (hsame : ∀ v, v ∈ vs ↔ v ∈ violations j) :
    (vs.mergeSort fun a b => (compareIn (topKeys j) a b).isLE).destutter (· ≠ ·) = check j :=
  destutter_mergeSort_eq (nodup_violations hj) hsame (eq_of_compareIn_topKeys hj)

end Bindery.Contract
