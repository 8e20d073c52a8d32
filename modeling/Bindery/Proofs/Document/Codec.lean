import Bindery.Document.Decode
import Bindery.Document.Encode
import Bindery.Proofs.Contract.Loading

/-!
# Decoding what was encoded

The value of a part of a document is decoded to that part: parameters, entries with the
counts that they have, lists of them, the table of parents.  A document comes back with its
counts anew, and whole but for an interface that has the name of the parents' key
(`Document.ofJson_toJson`): in a value the table of parents stands in its place.
-/

namespace Bindery

open Json

/-! ## Entries -/

/-- A list is decoded if its items are. -/
theorem asList_map {α : Type} {item : Decoder α} {toJson : α → Json} {xs : List α}
    (h : ∀ x ∈ xs, item (toJson x) = .ok x) :
    asList item (.array (xs.map toJson)) = .ok xs := by
  show decodeItems item (xs.map toJson) = .ok xs
  induction xs with
  | nil => rfl
  | cons x xs ih =>
      rw [List.forall_mem_cons] at h
      rw [List.map_cons, decodeItems, h.1, ih h.2]

/-- A count is decoded to what it was. -/
theorem asCount_ofNat (n : Nat) : asCount (Json.ofNat n) = .ok n := by
  rw [Json.ofNat, asCount, if_neg (by omega), Int.toNat_natCast]

/-- A parameter is decoded. -/
theorem Parameter.ofJson_toJson (p : Parameter) : Parameter.ofJson p.toJson = .ok p := rfl

/-- A method is decoded from its members. -/
theorem MethodEntry.ofMembers_members (m : MethodEntry) :
    recordOfMembers methodFields MethodEntry.ofFields m.members = .ok m := by
  obtain ⟨interface, name, parameters, arity, required, returnType, thisType, doc⟩ := m
  have hparameters :
      asList Parameter.ofJson (.array (parameters.map Parameter.toJson)) = .ok parameters :=
    asList_map fun p _ => Parameter.ofJson_toJson p
  rw [MethodEntry.members]
  -- how the values are written does not matter, only what they are decoded to
  generalize Json.array (parameters.map Parameter.toJson) = js at hparameters ⊢
  have harity := asCount_ofNat arity
  have hrequired := asCount_ofNat required
  generalize Json.ofNat arity = j at harity ⊢
  generalize Json.ofNat required = j' at hrequired ⊢
  cases thisType <;> cases doc <;>
    simp [optionalMember, recordOfMembers, checkMembers, methodFields, checking, hparameters,
      harity, hrequired, MethodEntry.ofFields, Fields.required, Fields.withDefault,
      Fields.ofMembers, List.lookup_cons, asString, asOptionalString, Except.map]

/-- A property or event is decoded from its members. -/
theorem PropertyEntry.ofContent_members (p : PropertyEntry) :
    PropertyEntry.ofContent (.members p.members) = .ok p := by
  obtain ⟨interface, name, typeText, doc⟩ := p
  cases doc <;> rfl

/-- An entry is decoded from its kind and its members. -/
theorem Entry.ofContent_members (e : Entry) :
    Entry.ofContent e.kind (.members e.members) = .ok e := by
  cases e with
  | method m =>
      show (recordOfMembers methodFields MethodEntry.ofFields m.members).map Entry.method = _
      rw [MethodEntry.ofMembers_members]
      rfl
  | property p =>
      show (PropertyEntry.ofContent (.members p.members)).map Entry.property = _
      rw [PropertyEntry.ofContent_members]
      rfl
  | event p =>
      show (PropertyEntry.ofContent (.members p.members)).map Entry.event = _
      rw [PropertyEntry.ofContent_members]
      rfl

/-- The members of an entry have keys of their own, and none is the kind. -/
theorem Entry.nodup_members (e : Entry) :
    ("kind" :: e.members.map Prod.fst).Nodup := by
  have hmethod : ∀ m : MethodEntry, ("kind" :: m.members.map Prod.fst).Nodup := by
    rintro ⟨interface, name, parameters, arity, required, returnType, thisType, doc⟩
    cases thisType <;> cases doc <;> simp [MethodEntry.members, optionalMember]
  have hproperty : ∀ p : PropertyEntry, ("kind" :: p.members.map Prod.fst).Nodup := by
    rintro ⟨interface, name, typeText, doc⟩
    cases doc <;> simp [PropertyEntry.members, optionalMember]
  cases e with
  | method m => exact hmethod m
  | property p => exact hproperty p
  | event p => exact hproperty p

/-- The name of a kind stands for it. -/
theorem kindOfName_name (kind : EntryKind) : kindOfName kind.name = .ok kind := by
  cases kind <;> rfl

/-- An entry is decoded. -/
theorem Entry.ofJson_toJson (e : Entry) : Entry.ofJson e.toJson = .ok e := by
  have hkind : asKind (.string e.kind.name) = .ok e.kind := kindOfName_name e.kind
  have hsplit : splitKind none [] (("kind", .string e.kind.name) :: e.members)
      = .ok (e.kind, e.members) := by
    rw [splitKind, if_pos rfl, hkind]
    exact splitKind_some (List.nodup_cons.mp e.nodup_members).1 e.kind []
  rw [Entry.toJson, Entry.ofJson, hsplit]
  exact e.ofContent_members

/-- The entries of an interface are decoded. -/
theorem ofJson_entriesToJson (es : List Entry) :
    asList Entry.ofJson (entriesToJson es) = .ok es :=
  asList_map fun e _ => e.ofJson_toJson

/-! ## Tables of parents -/

/-- Names are decoded. -/
theorem ofJson_names (names : List String) :
    asList asString (.array (names.map .string)) = .ok names :=
  asList_map fun _ _ => rfl

/-- A table of parents is decoded. -/
theorem ParentTable.ofJson_toJson (t : ParentTable) : ParentTable.ofJson t.toJson = .ok t := by
  have hmembers : ∀ (es : List (String × List String)) (s : ParentTable),
      ParentTable.ofMembers s (es.map fun e => (e.1, .array (e.2.map .string)))
        = .ok (es.foldl (fun t e => t.put e.1 e.2) s) := by
    intro es
    induction es with
    | nil => exact fun s => rfl
    | cons e es ih =>
        intro s
        rw [List.map_cons, ParentTable.ofMembers, ofJson_names]
        exact ih _
  show ParentTable.ofMembers Keyed.empty _ = _
  rw [hmembers, Keyed.foldl_put_entries]

/-! ## Documents -/

/-- The member of a written document that an interface makes. -/
def interfaceMember (e : String × List Entry) : String × Json := (e.1, entriesToJson e.2)

/-- A document without the interface that has the name of the parents' key, if there is
one. -/
def Document.dropReserved (d : Document) : Document :=
  { d with entries := d.entries.keep fun name => name != parentsKey }

/-- Nothing is dropped where no interface has that name. -/
theorem Document.dropReserved_eq_self {d : Document} (h : parentsKey ∉ d.entries.keys) :
    d.dropReserved = d := by
  have hkeep : d.entries.keep (fun name => name != parentsKey) = d.entries := by
    apply Keyed.ext
    exact filter_of_notMem h
  rw [Document.dropReserved, hkeep]

theorem keys_interfaceMember (es : List (String × List Entry)) :
    (es.map interfaceMember).map Prod.fst = es.map Prod.fst := by
  rw [List.map_map]
  rfl

/-- Members of interfaces are taken in one after the other. -/
theorem Document.ofMembers_interfaces {es : List (String × List Entry)}
    (h : parentsKey ∉ es.map Prod.fst) (d : Document) (ms : List (String × Json)) :
    Document.ofMembers d (es.map interfaceMember ++ ms)
      = Document.ofMembers
          { d with entries := es.foldl (fun t e => t.put e.1 e.2) d.entries } ms := by
  induction es generalizing d with
  | nil => rfl
  | cons e es ih =>
      rw [List.map_cons, List.mem_cons, not_or] at h
      have hkey : ¬ e.1 = parentsKey := fun heq => h.1 heq.symm
      rw [List.map_cons, List.cons_append, interfaceMember, Document.ofMembers, if_neg hkey,
        ofJson_entriesToJson]
      exact ih h.2 _

/-- Where the table of parents takes the place of an interface, that interface is lost. -/
theorem Document.ofMembers_putParents {es : List (String × List Entry)}
    (hnodup : (es.map Prod.fst).Nodup) (t : ParentTable) (d : Document) :
    Document.ofMembers d (putPair (es.map interfaceMember) (parentsKey, t.toJson))
      = .ok { entries := (es.filter fun e => e.1 != parentsKey).foldl
                (fun t e => t.put e.1 e.2) d.entries
              parents := t } := by
  induction es generalizing d with
  | nil =>
      show Document.ofMembers d [(parentsKey, t.toJson)] = _
      rw [Document.ofMembers, if_pos rfl, t.ofJson_toJson]
      rfl
  | cons e es ih =>
      rw [List.map_cons, List.nodup_cons] at hnodup
      by_cases hkey : e.1 = parentsKey
      · have hput : putPair ((e :: es).map interfaceMember) (parentsKey, t.toJson)
            = (parentsKey, t.toJson) :: (es.map interfaceMember ++ []) := by
          rw [List.map_cons, interfaceMember, putPair, upsertPair, if_pos hkey, hkey,
            List.append_nil]
        rw [hkey] at hnodup
        have hrest : es.filter (fun e => e.1 != parentsKey) = es := filter_of_notMem hnodup.1
        -- names are distinct, so what stands behind it are interfaces to keep
        rw [hput, Document.ofMembers, if_pos rfl, t.ofJson_toJson,
          List.filter_cons_of_neg (by simpa using hkey), hrest]
        exact Document.ofMembers_interfaces hnodup.1 _ []
      · have hput : putPair ((e :: es).map interfaceMember) (parentsKey, t.toJson)
            = interfaceMember e :: putPair (es.map interfaceMember) (parentsKey, t.toJson) := by
          rw [List.map_cons, interfaceMember, putPair, upsertPair, if_neg hkey]
          rfl
        rw [hput, interfaceMember, Document.ofMembers, if_neg hkey, ofJson_entriesToJson,
          List.filter_cons_of_pos (by simpa using hkey)]
        exact ih hnodup.2 _

/-! ## The tree of a document -/

/-- The values of entries have distinct keys. -/
theorem distinct_entryToJson (e : Entry) : e.toJson.Distinct := by
  rw [Entry.toJson, distinct_object_iff]
  refine ⟨e.nodup_members, ?_⟩
  rw [List.forall_mem_cons]
  refine ⟨trivial, ?_⟩
  have hoptional : ∀ (key : String) (part : Option String),
      ∀ m ∈ optionalMember key part, m.2.Distinct := by
    intro key part m hm
    cases part with
    | none => cases hm
    | some s =>
        rw [List.mem_singleton.mp hm]
        trivial
  have hproperty : ∀ p : PropertyEntry, ∀ m ∈ p.members, m.2.Distinct := by
    intro p m hm
    rcases List.mem_append.mp hm with hfixed | hdoc
    · simp only [List.mem_cons, List.not_mem_nil, or_false] at hfixed
      rcases hfixed with rfl | rfl | rfl <;> trivial
    · exact hoptional _ _ m hdoc
  -- only the parameters hold values inside values
  cases e with
  | method e =>
      intro m hm
      rcases List.mem_append.mp hm with hfront | hdoc
      · rcases List.mem_append.mp hfront with hfixed | hthis
        · simp only [List.mem_cons, List.not_mem_nil, or_false] at hfixed
          rcases hfixed with rfl | rfl | rfl | rfl | rfl | rfl
          · trivial
          · trivial
          · rw [distinct_array_iff]
            intro j hj
            obtain ⟨p, -, rfl⟩ := List.mem_map.mp hj
            simp [Parameter.toJson, Json.Distinct, DistinctMembers]
          all_goals trivial
        · exact hoptional _ _ m hthis
      · exact hoptional _ _ m hdoc
  | property p => exact hproperty p
  | event p => exact hproperty p

/-- The values of interfaces have distinct keys. -/
theorem distinct_entriesToJson (es : List Entry) : (entriesToJson es).Distinct := by
  rw [entriesToJson, distinct_array_iff]
  intro j hj
  obtain ⟨e, -, rfl⟩ := List.mem_map.mp hj
  exact distinct_entryToJson e

/-- The value of a table of parents has distinct keys. -/
theorem distinct_parentsToJson (t : ParentTable) : t.toJson.Distinct := by
  rw [ParentTable.toJson, distinct_object_iff]
  constructor
  · rw [List.map_map]
    exact t.nodup
  · intro m hm
    obtain ⟨e, -, rfl⟩ := List.mem_map.mp hm
    rw [distinct_array_iff]
    intro j hj
    obtain ⟨s, -, rfl⟩ := List.mem_map.mp hj
    trivial

/-- The value of a document: the table of parents is written last, or over the interface
that has its key. -/
theorem Document.toJson_eq (d : Document) :
    d.toJson
      = .object (putPair (d.entries.entries.map interfaceMember)
          (parentsKey, d.parents.toJson)) := by
  have hvalues : ∀ m ∈ d.entries.entries.map interfaceMember ++ [(parentsKey, d.parents.toJson)],
      m.2.settle = m.2 := by
    intro m hm
    apply settle_of_distinct
    rcases List.mem_append.mp hm with hmem | hlast
    · obtain ⟨e, -, rfl⟩ := List.mem_map.mp hmem
      exact distinct_entriesToJson e.2
    · rw [List.mem_singleton.mp hlast]
      exact distinct_parentsToJson d.parents
  have hkeys : (([] ++ d.entries.entries.map interfaceMember).map Prod.fst).Nodup := by
    rw [List.nil_append, keys_interfaceMember]
    exact d.entries.nodup
  show Json.settle (.object (d.entries.entries.map interfaceMember
    ++ [(parentsKey, d.parents.toJson)])) = _
  rw [settle, settleMembers_eq_foldl hvalues, List.foldl_append, foldl_putPair_of_nodup hkeys]
  rfl

/-- **VALUES**: the value of a document is decoded to the document with its parameters counted
anew, but for an interface with the name of the parents' key. -/
theorem Document.ofJson_toJson (d : Document) :
    Document.ofJson d.toJson = .ok d.dropReserved.refreshCounts := by
  have hkept : (d.entries.entries.filter fun e => e.1 != parentsKey).foldl
      (fun t e => t.put e.1 e.2) Keyed.empty
      = d.entries.keep fun name => name != parentsKey :=
    Keyed.foldl_put_entries (d.entries.keep fun name => name != parentsKey)
  rw [d.toJson_eq]
  show (Document.ofMembers Document.empty _).map Document.refreshCounts = _
  rw [Document.ofMembers_putParents d.entries.nodup]
  show Except.ok (Document.refreshCounts (Document.mk _ _)) = _
  rw [show Document.empty.entries = Keyed.empty from rfl, hkept]
  rfl

end Bindery
