import Bindery.Json.Decode
import Bindery.Proofs.Json.Settle

/-!
# Repeated keys and decoding

What a decoder takes from a tree it also takes from the value of the tree (`Settles`).  For a
record this is so because decoding refuses a known field that comes twice, so of each field that
is looked up there is one value to settle on (`lookup_settleMembers`); members with unknown keys
may be repeated, and nobody looks at them.
-/

namespace Bindery.Json

variable {α β : Type}

/-- What is decoded from a tree is decoded from its value. -/
def Settles (decode : Decoder α) : Prop := ∀ j x, decode j = .ok x → decode j.settle = .ok x

/-! ## Scalars and lists -/

theorem settles_asString : Settles asString := by
  intro j x h
  cases j with
  | string s => exact h
  | _ => cases h

theorem settles_asBoolean : Settles asBoolean := by
  intro j x h
  cases j with
  | boolean b => exact h
  | _ => cases h

theorem settles_asCount : Settles asCount := by
  intro j x h
  cases j with
  | number n => exact h
  | _ => cases h

theorem settles_asOptionalString : Settles asOptionalString := by
  intro j x h
  cases j with
  | null => exact h
  | string s => exact h
  | _ => cases h

/-- Items are settled one by one. -/
theorem settles_decodeItems {item : Decoder α} (hitem : Settles item) {js : List Json}
    {xs : List α} (h : decodeItems item js = .ok xs) :
    decodeItems item (settleItems js) = .ok xs := by
  induction js generalizing xs with
  | nil => exact h
  | cons j js ih =>
      rw [decodeItems] at h
      split at h
      · cases h
      · next hx =>
        split at h
        · cases h
        · next hxs =>
          cases h
          rw [settleItems, decodeItems, hitem j _ hx, ih hxs]

/-- So a list is decoded like its settled form, if its items are. -/
theorem settles_asList {item : Decoder α} (hitem : Settles item) : Settles (asList item) := by
  intro j xs h
  cases j with
  | array items =>
      rw [settle]
      exact settles_decodeItems hitem h
  | _ => cases h

/-- A check passes exactly if there is something to decode. -/
theorem checking_eq_ok_iff {decode : Decoder α} {j : Json} :
    checking decode j = .ok () ↔ ∃ x, decode j = .ok x := by
  rw [checking]
  cases decode j <;> simp [Except.map]

/-- A value that is only checked is checked in its settled form. -/
theorem settles_checking {decode : Decoder α} (h : Settles decode) : Settles (checking decode) := by
  intro j x hx
  obtain ⟨y, hy⟩ := checking_eq_ok_iff.mp hx
  exact checking_eq_ok_iff.mpr ⟨y, h j y hy⟩

/-! ## Members -/

section Members

variable {fields : List FieldCheck} {ms : List (String × Json)}

/-- Whether a record has a field of a name. -/
def isKnown (fields : List FieldCheck) (key : String) : Bool :=
  (fields.find? fun f => f.name == key).isSome

theorem isKnown_of_mem {f : FieldCheck} (h : f ∈ fields) : isKnown fields f.name = true :=
  List.find?_isSome.mpr ⟨f, h, beq_self_eq_true f.name⟩

/-- The members with known keys. -/
def knownMembers (fields : List FieldCheck) (ms : List (String × Json)) : List (String × Json) :=
  ms.filter fun m => isKnown fields m.1

/-- The members pass their checks: each known one that of its field. -/
def Pass (fields : List FieldCheck) (ms : List (String × Json)) : Prop :=
  ∀ m ∈ ms, ∀ f, fields.find? (fun f => f.name == m.1) = some f → f.check m.2 = .ok ()

/-- Members are accepted if no known key comes twice and each known member passes its check. -/
theorem checkMembers_eq_ok_iff {seen : List String} :
    checkMembers fields seen ms = .ok ()
      ↔ ((knownMembers fields ms).map Prod.fst).Nodup
        ∧ (∀ m ∈ knownMembers fields ms, m.1 ∉ seen) ∧ Pass fields ms := by
  induction ms generalizing seen with
  | nil => simp [checkMembers, knownMembers, Pass]
  | cons m ms ih =>
      obtain ⟨key, value⟩ := m
      rw [checkMembers, knownMembers, List.filter_cons, Pass, List.forall_mem_cons]
      cases hfind : fields.find? fun f => f.name == key with
      | none =>
          have hknown : ¬ isKnown fields key = true := by simp [isKnown, hfind]
          rw [if_neg hknown]
          simp only [reduceCtorEq, false_implies, implies_true, true_and]
          exact ih
      | some f =>
          have hknown : isKnown fields key = true := by simp [isKnown, hfind]
          rw [if_pos hknown, List.map_cons, List.nodup_cons, List.forall_mem_cons]
          simp only [Option.some.injEq, forall_eq']
          by_cases hseen : key ∈ seen
          · simp [hseen]
          · rw [if_neg (by simpa using hseen)]
            cases hcheck : f.check value with
            | error e => simp
            | ok u =>
                simp only [ih, List.mem_cons, not_or, hseen, not_false_eq_true, true_and]
                -- a key that comes again is now among those that were seen
                have hagain : (∀ m ∈ knownMembers fields ms, ¬ m.1 = key ∧ m.1 ∉ seen)
                    ↔ key ∉ (knownMembers fields ms).map Prod.fst
                      ∧ ∀ m ∈ knownMembers fields ms, m.1 ∉ seen := by
                  constructor
                  · intro h
                    refine ⟨?_, fun m hm => (h m hm).2⟩
                    rintro hmem
                    obtain ⟨m, hm, heq⟩ := List.mem_map.mp hmem
                    exact (h m hm).1 heq
                  · rintro ⟨hnew, h⟩ m hm
                    exact ⟨fun heq => hnew (List.mem_map.mpr ⟨m, hm, heq⟩), h m hm⟩
                rw [hagain]
                constructor
                · rintro ⟨hnodup, ⟨hnew, hold⟩, hpass⟩
                  exact ⟨⟨hnew, hnodup⟩, hold, hpass⟩
                · rintro ⟨⟨hnew, hnodup⟩, hold, hpass⟩
                  exact ⟨hnodup, ⟨hnew, hold⟩, hpass⟩

/-- Settled members have distinct keys. -/
theorem nodup_settleMembers (ms : List (String × Json)) :
    ((settleMembers [] ms).map Prod.fst).Nodup := by
  rw [settleMembers_eq]
  exact nodup_foldl_putPair (by simp) _

/-- Looking up and settling go in either order. -/
theorem lookup_map_settledMember (ms : List (String × Json)) (key : String) :
    (ms.map settledMember).lookup key = (ms.lookup key).map settle := by
  induction ms with
  | nil => rfl
  | cons m ms ih =>
      obtain ⟨k, value⟩ := m
      rw [List.map_cons, settledMember, List.lookup_cons, List.lookup_cons, ih]
      cases key == k <;> rfl

/-- The last value under a key is the one that is settled on. -/
theorem lookup_settleMembers_eq (ms : List (String × Json)) (key : String) :
    (settleMembers [] ms).lookup key = (ms.reverse.lookup key).map settle := by
  rw [settleMembers_eq, lookup_foldl_putPair, List.lookup_nil, Option.or_none, ← List.map_reverse,
    lookup_map_settledMember]

/-- A known key that does not come twice has its value settled. -/
theorem lookup_settleMembers {key : String} (hnodup : ((knownMembers fields ms).map Prod.fst).Nodup)
    (hkey : isKnown fields key = true) :
    (settleMembers [] ms).lookup key = (ms.lookup key).map settle := by
  rw [lookup_settleMembers_eq, lookup_reverse (isKnown fields) hnodup hkey]

/-- Members with settled values pass their checks if the members do. -/
theorem Pass.map_settledMember (hfields : ∀ f ∈ fields, Settles f.check) (h : Pass fields ms) :
    Pass fields (ms.map settledMember) := by
  intro m hm f hf
  obtain ⟨m', hm', rfl⟩ := List.mem_map.mp hm
  exact hfields f (List.mem_of_find?_eq_some hf) m'.2 () (h m' hm' f hf)

/-- What is settled on is among the settled values. -/
theorem Pass.settleMembers (hfields : ∀ f ∈ fields, Settles f.check) (h : Pass fields ms) :
    Pass fields (settleMembers [] ms) := by
  intro m hm
  rw [settleMembers_eq] at hm
  exact h.map_settledMember hfields m
    ((mem_of_mem_foldl_putPair hm).resolve_left List.not_mem_nil)

end Members

/-! ## Records -/

/-- The fields of a record with settled values, as far as they are known. -/
def Fields.Settle (fields : List FieldCheck) (f f' : Fields) : Prop :=
  ∀ name ∈ fields.map FieldCheck.name,
    f'.members.lookup name = (f.members.lookup name).map settle

/-- What is picked from fields is picked from settled ones. -/
def PicksSettled (fields : List FieldCheck) (pick : Fields → Except Mismatch α) : Prop :=
  ∀ f f' x, Fields.Settle fields f f' → pick f = .ok x → pick f' = .ok x

section Records

variable {fields : List FieldCheck} {f f' : Fields} {name : String}

/-- What is decoded from a field is decoded from its settled form, and where the field is missing
it is missing in both. -/
theorem Fields.Settle.decoded {decode : Decoder β} {missing missing' : Except Mismatch β} {x : β}
    (h : Fields.Settle fields f f') (hname : name ∈ fields.map FieldCheck.name)
    (hdecode : Settles decode)
    (hx : (match f.members.lookup name with
      | none => missing
      | some j => decode j) = .ok x)
    (hmissing : missing = .ok x → missing' = .ok x) :
    (match f'.members.lookup name with
      | none => missing'
      | some j => decode j) = .ok x := by
  rw [h name hname]
  cases hlookup : f.members.lookup name with
  | none =>
      rw [hlookup] at hx
      exact hmissing hx
  | some j =>
      rw [hlookup] at hx
      exact hdecode j x hx

/-- A field that has to be there is found in the settled form. -/
theorem Fields.Settle.required {decode : Decoder β} {x : β} (h : Fields.Settle fields f f')
    (hname : name ∈ fields.map FieldCheck.name) (hdecode : Settles decode)
    (hx : f.required name decode = .ok x) : f'.required name decode = .ok x :=
  h.decoded hname hdecode hx nofun

/-- A field that may be missing is found in both forms or in neither. -/
theorem Fields.Settle.withDefault {decode : Decoder β} {default x : β}
    (h : Fields.Settle fields f f') (hname : name ∈ fields.map FieldCheck.name)
    (hdecode : Settles decode) (hx : f.withDefault name decode default = .ok x) :
    f'.withDefault name decode default = .ok x :=
  h.decoded hname hdecode hx id

variable {pick : Fields → Except Mismatch α} {x : α}

/-- A record that is given as an object. -/
theorem recordOfMembers_settleMembers (hfields : ∀ f ∈ fields, Settles f.check)
    (hpick : PicksSettled fields pick) {ms : List (String × Json)}
    (h : recordOfMembers fields pick ms = .ok x) :
    recordOfMembers fields pick (settleMembers [] ms) = .ok x := by
  rw [recordOfMembers] at h
  split at h
  · cases h
  · next hcheck =>
    obtain ⟨hnodup, -, hpass⟩ := checkMembers_eq_ok_iff.mp hcheck
    have hcheck' : checkMembers fields [] (settleMembers [] ms) = .ok () := by
      refine checkMembers_eq_ok_iff.mpr ⟨?_, by simp, hpass.settleMembers hfields⟩
      exact nodup_filterPairs _ (nodup_settleMembers ms)
    rw [recordOfMembers, hcheck']
    -- only known names are picked, and of these none came twice
    refine hpick _ _ x ?_ h
    intro name hname
    obtain ⟨field, hfield, rfl⟩ := List.mem_map.mp hname
    exact lookup_settleMembers hnodup (isKnown_of_mem hfield)

/-- A record that is given as a list: its items stand under the names of the fields. -/
theorem recordOfItems_settleItems {record : String} (hfields : ∀ f ∈ fields, Settles f.check)
    (hpick : PicksSettled fields pick) {js : List Json}
    (h : recordOfItems record fields pick js = .ok x) :
    recordOfItems record fields pick (settleItems js) = .ok x := by
  -- the names are those of the fields, so only values are settled
  have hmembers : (Fields.ofItems record fields (settleItems js)).members
      = (Fields.ofItems record fields js).members.map settledMember := by
    show (fields.map FieldCheck.name).zip (settleItems js) = _
    rw [settleItems_eq_map, List.zip_map_right]
    rfl
  have hsettle : Fields.Settle fields (Fields.ofItems record fields js)
      (Fields.ofItems record fields (settleItems js)) := by
    intro name _
    rw [hmembers, lookup_map_settledMember]
  rw [recordOfItems] at h ⊢
  simp only [hmembers] at h ⊢
  split at h
  · cases h
  · next hcheck =>
    obtain ⟨hnodup, -, hpass⟩ := checkMembers_eq_ok_iff.mp hcheck
    have hcheck' : checkMembers fields []
        ((Fields.ofItems record fields js).members.map settledMember) = .ok () := by
      refine checkMembers_eq_ok_iff.mpr ⟨?_, by simp, hpass.map_settledMember hfields⟩
      rw [knownMembers, List.filter_map, List.map_map]
      exact hnodup
    rw [hcheck']
    split at h
    · cases h
    · next y hy =>
      simp only [hpick _ _ y hsettle hy]
      rw [checkLength, settleItems_eq_map, List.length_map]
      exact h

/-- **RECORDS**: what a record is decoded from may be settled. -/
theorem settles_asRecord {record : String} (hfields : ∀ f ∈ fields, Settles f.check)
    (hpick : PicksSettled fields pick) : Settles (asRecord record fields pick) := by
  intro j x h
  cases j with
  | object ms =>
      rw [settle]
      exact recordOfMembers_settleMembers hfields hpick h
  | array items =>
      rw [settle]
      exact recordOfItems_settleItems hfields hpick h
  | _ => cases h

end Records

end Bindery.Json
