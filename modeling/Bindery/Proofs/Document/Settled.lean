import Bindery.Proofs.Contract.Loading
import Bindery.Proofs.Document.Counts
import Bindery.Proofs.Json.Repeated

/-!
# Documents and repeated keys

What a document is decoded from may repeat keys at every level, and decoding it comes to what
decoding its value comes to (`settles_document`).  The levels differ in why this is so.  A
repeated field of a parameter or of an entry, its kind included, is refused.  A repeated child
and a repeated interface are written twice, and the second time in the place of the first one.
A repeated table of parents replaces the table before it.
-/

namespace Bindery

open Json

/-! ## Records -/

/-- Of a parameter that repeats members the last of each is picked. -/
theorem picksSettled_parameter : PicksSettled parameterFields Parameter.ofFields := by
  intro f f' x h hx
  rw [Parameter.ofFields] at hx
  split at hx
  · cases hx
  next name hname =>
  split at hx
  · cases hx
  next typeText htype =>
  split at hx
  · cases hx
  next optional hoptional =>
  split at hx
  · cases hx
  next rest hrest =>
  rw [Parameter.ofFields, h.required (by decide) settles_asString hname,
    h.required (by decide) settles_asString htype,
    h.withDefault (by decide) settles_asBoolean hoptional,
    h.withDefault (by decide) settles_asBoolean hrest]
  exact hx

/-- So a parameter is decoded as if it repeated no member. -/
theorem settles_parameter : Settles Parameter.ofJson := by
  refine settles_asRecord ?_ picksSettled_parameter
  intro f hf
  simp only [parameterFields, List.mem_cons, List.not_mem_nil, or_false] at hf
  rcases hf with rfl | rfl | rfl | rfl
  · exact settles_checking settles_asString
  · exact settles_checking settles_asString
  · exact settles_checking settles_asBoolean
  · exact settles_checking settles_asBoolean

/-- So it is with a method: every field is looked up by its name once. -/
theorem picksSettled_method : PicksSettled methodFields MethodEntry.ofFields := by
  intro f f' x h hx
  rw [MethodEntry.ofFields] at hx
  split at hx
  · cases hx
  next interface hinterface =>
  split at hx
  · cases hx
  next name hname =>
  split at hx
  · cases hx
  next parameters hparameters =>
  split at hx
  · cases hx
  next arity harity =>
  split at hx
  · cases hx
  next required hrequired =>
  split at hx
  · cases hx
  next returnType hreturn =>
  split at hx
  · cases hx
  next thisType hthis =>
  split at hx
  · cases hx
  next doc hdoc =>
  -- every field was read once above, and each reads the same from the settled fields
  rw [MethodEntry.ofFields, h.required (by decide) settles_asString hinterface,
    h.required (by decide) settles_asString hname,
    h.required (by decide) (settles_asList settles_parameter) hparameters,
    h.withDefault (by decide) settles_asCount harity,
    h.withDefault (by decide) settles_asCount hrequired,
    h.required (by decide) settles_asString hreturn,
    h.withDefault (by decide) settles_asOptionalString hthis,
    h.withDefault (by decide) settles_asOptionalString hdoc]
  exact hx

/-- Its parameters may repeat members themselves. -/
theorem settles_methodFields : ∀ f ∈ methodFields, Settles f.check := by
  intro f hf
  simp only [methodFields, List.mem_cons, List.not_mem_nil, or_false] at hf
  rcases hf with rfl | rfl | rfl | rfl | rfl | rfl | rfl | rfl
  · exact settles_checking settles_asString
  · exact settles_checking settles_asString
  · exact settles_checking (settles_asList settles_parameter)
  · exact settles_checking settles_asCount
  · exact settles_checking settles_asCount
  · exact settles_checking settles_asString
  · exact settles_checking settles_asOptionalString
  · exact settles_checking settles_asOptionalString

/-- And so it is with a property or an event. -/
theorem picksSettled_property : PicksSettled propertyFields PropertyEntry.ofFields := by
  intro f f' x h hx
  rw [PropertyEntry.ofFields] at hx
  split at hx
  · cases hx
  next interface hinterface =>
  split at hx
  · cases hx
  next name hname =>
  split at hx
  · cases hx
  next typeText htype =>
  split at hx
  · cases hx
  next doc hdoc =>
  rw [PropertyEntry.ofFields, h.required (by decide) settles_asString hinterface,
    h.required (by decide) settles_asString hname,
    h.required (by decide) settles_asString htype,
    h.withDefault (by decide) settles_asOptionalString hdoc]
  exact hx

theorem settles_propertyFields : ∀ f ∈ propertyFields, Settles f.check := by
  intro f hf
  simp only [propertyFields, List.mem_cons, List.not_mem_nil, or_false] at hf
  rcases hf with rfl | rfl | rfl | rfl
  · exact settles_checking settles_asString
  · exact settles_checking settles_asString
  · exact settles_checking settles_asString
  · exact settles_checking settles_asOptionalString

/-! ## Entries -/

/-- The content of an entry with settled values. -/
def EntryContent.settle : EntryContent → EntryContent
  | .members ms => .members (settleMembers [] ms)
  | .items js => .items (settleItems js)

/-- A record that may repeat members is decoded like its settled form, if its fields are. -/
theorem record_settle {α : Type} {record : String} {fields : List FieldCheck}
    {pick : Fields → Except Mismatch α} (hfields : ∀ f ∈ fields, Settles f.check)
    (hpick : PicksSettled fields pick) {c : EntryContent} {x : α}
    (h : c.record record fields pick = .ok x) : c.settle.record record fields pick = .ok x := by
  cases c with
  | members ms => exact recordOfMembers_settleMembers hfields hpick h
  | items js => exact recordOfItems_settleItems hfields hpick h

/-- An entry of any kind is decoded like its settled form. -/
theorem ofContent_settle {kind : EntryKind} {c : EntryContent} {e : Entry}
    (h : Entry.ofContent kind c = .ok e) : Entry.ofContent kind c.settle = .ok e := by
  have hproperty : ∀ p, PropertyEntry.ofContent c = .ok p →
      PropertyEntry.ofContent c.settle = .ok p :=
    fun p hp => record_settle settles_propertyFields picksSettled_property hp
  cases kind with
  | method =>
      obtain ⟨m, hm, rfl⟩ := of_map_eq_ok h
      rw [Entry.ofContent, record_settle settles_methodFields picksSettled_method hm]
      rfl
  | property =>
      obtain ⟨p, hp, rfl⟩ := of_map_eq_ok h
      rw [Entry.ofContent, hproperty p hp]
      rfl
  | event =>
      obtain ⟨p, hp, rfl⟩ := of_map_eq_ok h
      rw [Entry.ofContent, hproperty p hp]
      rfl

/-- Behind the kind no other kind is found. -/
theorem splitKind_some_eq_ok {kind k : EntryKind} {acc ms others : List (String × Json)}
    (h : splitKind (some kind) acc ms = .ok (k, others)) :
    k = kind ∧ others = acc.reverse ++ ms ∧ "kind" ∉ ms.map Prod.fst := by
  induction ms generalizing acc with
  | nil =>
      cases h
      exact ⟨rfl, (List.append_nil _).symm, List.not_mem_nil⟩
  | cons m ms ih =>
      obtain ⟨key, value⟩ := m
      rw [splitKind] at h
      split at h
      · cases h
      · next hkey =>
        obtain ⟨hk, hothers, hnot⟩ := ih h
        refine ⟨hk, by rw [hothers, List.reverse_cons, ← List.append_cons], ?_⟩
        rw [List.map_cons, List.mem_cons, not_or]
        exact ⟨fun heq => hkey heq.symm, hnot⟩

/-- The kind that is found is the only one, and the others are the other members. -/
theorem splitKind_none_eq_ok {k : EntryKind} {acc ms others : List (String × Json)}
    (h : splitKind none acc ms = .ok (k, others)) :
    others = acc.reverse ++ besideKind ms
      ∧ ∃ s, ms.reverse.lookup "kind" = some (.string s) ∧ EntryKind.ofName? s = some k := by
  induction ms generalizing acc with
  | nil => cases h
  | cons m ms ih =>
      obtain ⟨key, value⟩ := m
      rw [splitKind] at h
      split at h
      · next hkey =>
        subst hkey
        split at h
        · cases h
        · split at h
          · cases h
          · next kind hkind =>
            -- a second kind would have been refused, so this one is the last one as well
            obtain ⟨rfl, hothers, hnot⟩ := splitKind_some_eq_ok h
            have hnone : ms.reverse.lookup "kind" = none := by
              rw [List.lookup_eq_none_iff]
              intro m hm
              rw [bne_iff_ne]
              intro heq
              exact hnot (List.mem_map.mpr ⟨m, List.mem_reverse.mp hm, heq.symm⟩)
            have hbeside : besideKind (("kind", value) :: ms) = ms := by
              rw [besideKind, List.filter_cons_of_neg (by simp), filter_of_notMem hnot]
            refine ⟨by rw [hothers, hbeside], ?_⟩
            rw [lookup_reverse_cons, hnone, Option.none_or, if_pos rfl]
            cases value with
            | string s =>
                refine ⟨s, rfl, ?_⟩
                rw [asKind, kindOfName] at hkind
                split at hkind
                · next hname =>
                  rw [hname, Except.ok.inj hkind]
                · cases hkind
            | _ => cases hkind
      · next hkey =>
        obtain ⟨hothers, s, hlookup, hname⟩ := ih h
        have hbeside : besideKind ((key, value) :: ms) = (key, value) :: besideKind ms := by
          rw [besideKind, List.filter_cons_of_pos (by simpa using hkey), besideKind]
        refine ⟨by rw [hothers, hbeside, List.reverse_cons, ← List.append_cons], s, ?_, hname⟩
        rw [lookup_reverse_cons, hlookup, Option.some_or]

/-- Members may be dropped by their keys before they are settled. -/
theorem filter_settleMembers (p : String → Bool) (ms : List (String × Json)) :
    (settleMembers [] ms).filter (fun m => p m.1)
      = settleMembers [] (ms.filter fun m => p m.1) := by
  rw [settleMembers_eq, settleMembers_eq, filter_foldl_putPair, List.filter_map]
  rfl

/-- An entry may be decoded from its settled value. -/
theorem settles_entry : Settles Entry.ofJson := by
  intro j e h
  -- An entry is an object with its kind among the members, or a list with its kind in front;
  -- nothing else decodes.
  cases j with
  | object ms =>
      rw [Entry.ofJson] at h
      split at h
      · cases h
      · next kind others hsplit =>
        obtain ⟨hothers, s, hlookup, hname⟩ := splitKind_none_eq_ok hsplit
        rw [List.reverse_nil, List.nil_append] at hothers
        have hkind : (settleMembers [] ms).lookup "kind" = some (.string s) := by
          rw [lookup_settleMembers_eq, hlookup]
          rfl
        rw [settle, ofJson_of_kind (nodup_settleMembers ms) hkind hname, besideKind,
          filter_settleMembers fun key => key != "kind"]
        rw [besideKind] at hothers
        rw [← hothers]
        exact ofContent_settle (c := .members others) h
  | array items =>
      cases items with
      | nil => cases h
      | cons first rest =>
          rw [Entry.ofJson] at h
          split at h
          · cases h
          · next kind hkind =>
            cases first with
            | string s =>
                rw [settle, settleItems, settle, Entry.ofJson, hkind]
                exact ofContent_settle (c := .items rest) h
            | _ => cases hkind
  | _ => cases h

/-! ## Members that are decoded one by one -/

section Pairs

variable {α : Type} {decode : Decoder α} {ms : List (String × Json)} {ps : List (String × α)}

/-- A member is decoded to a pair. -/
def DecodesPair (decode : Decoder α) (m : String × Json) (p : String × α) : Prop :=
  m.1 = p.1 ∧ decode m.2 = .ok p.2

/-- Settled members are decoded to the pairs that are settled on. -/
theorem decodesPair_settleMembers (hdecode : Settles decode)
    (h : List.Forall₂ (DecodesPair decode) ms ps) :
    List.Forall₂ (DecodesPair decode) (settleMembers [] ms) (ps.foldl putPair []) := by
  rw [settleMembers_eq]
  refine forall₂_foldl_putPair (R := fun j x => decode j = .ok x) .nil ?_
  rw [List.forall₂_map_left_iff]
  exact h.imp fun m p hmp => ⟨hmp.1, hdecode _ _ hmp.2⟩

/-- Pairs may be settled on before they are written into an empty table. -/
theorem foldl_put_settled (ps : List (String × α)) :
    (ps.foldl putPair []).foldl (fun t p => t.put p.1 p.2) Keyed.empty
      = ps.foldl (fun t p => t.put p.1 p.2) (Keyed.empty : Keyed α) := by
  apply Keyed.ext
  rw [Keyed.entries_foldl_put, Keyed.entries_foldl_put, Keyed.entries_empty]
  refine (foldl_putPair_of_nodup ?_).trans (List.nil_append _)
  exact nodup_foldl_putPair (by simp) ps

/-- The last value under a name is the one that is settled on. -/
theorem lookup_reverse_settled (ps : List (String × α)) (key : String) :
    (ps.foldl putPair []).reverse.lookup key = ps.reverse.lookup key := by
  have hnodup : (((ps.foldl putPair []).filter fun _ => true).map Prod.fst).Nodup := by
    rw [List.filter_true]
    exact nodup_foldl_putPair (by simp) ps
  rw [lookup_reverse (fun _ => true) hnodup rfl, lookup_foldl_putPair, List.lookup_nil,
    Option.or_none]

end Pairs

/-! ## Tables of parents -/

/-- A table is written from the pairs that its members are decoded to. -/
theorem ParentTable.ofMembers_eq_ok_iff {t t' : ParentTable} {ms : List (String × Json)} :
    ParentTable.ofMembers t ms = .ok t'
      ↔ ∃ ps, List.Forall₂ (DecodesPair (asList asString)) ms ps
          ∧ t' = ps.foldl (fun t p => t.put p.1 p.2) t := by
  -- Each member is put into the table that the ones before it have made, so the table is general.
  induction ms generalizing t with
  | nil =>
      constructor
      · intro h
        cases h
        exact ⟨[], .nil, rfl⟩
      · rintro ⟨ps, hps, rfl⟩
        cases hps
        rfl
  | cons m ms ih =>
      obtain ⟨child, value⟩ := m
      rw [ParentTable.ofMembers]
      constructor
      · intro h
        split at h
        · cases h
        · next parents hparents =>
          obtain ⟨ps, hps, ht⟩ := ih.mp h
          exact ⟨(child, parents) :: ps, .cons ⟨rfl, hparents⟩ hps, ht⟩
      · rintro ⟨ps, hps, ht⟩
        cases hps with
        | @cons _ p _ ps hhead htail =>
            obtain ⟨k, parents⟩ := p
            obtain ⟨rfl, hparents⟩ := hhead
            rw [show asList asString value = .ok parents from hparents]
            exact ih.mpr ⟨ps, htail, ht⟩

/-- A child that is repeated has the parents that came last. -/
theorem settles_parentTable : Settles ParentTable.ofJson := by
  intro j t h
  cases j with
  | object ms =>
      obtain ⟨ps, hps, rfl⟩ := ParentTable.ofMembers_eq_ok_iff.mp h
      rw [settle]
      exact ParentTable.ofMembers_eq_ok_iff.mpr
        ⟨_, decodesPair_settleMembers (settles_asList settles_asString) hps,
          (foldl_put_settled ps).symm⟩
  | _ => cases h

/-! ## Documents -/

/-- The members of a document that are interfaces. -/
def interfaceMembers (ms : List (String × Json)) : List (String × Json) :=
  ms.filter fun m => m.1 != parentsKey

/-- The members of a document that are tables of parents. -/
def parentsMembers (ms : List (String × Json)) : List (String × Json) :=
  ms.filter fun m => m.1 == parentsKey

/-- A document is written from the pairs that its interfaces are decoded to, and has the last
table of parents. -/
theorem Document.ofMembers_eq_ok_iff {d d' : Document} {ms : List (String × Json)} :
    Document.ofMembers d ms = .ok d'
      ↔ (∃ ps, List.Forall₂ (DecodesPair (asList Entry.ofJson)) (interfaceMembers ms) ps
          ∧ d'.entries = ps.foldl (fun t p => t.put p.1 p.2) d.entries)
        ∧ ∃ ts, List.Forall₂ (DecodesPair ParentTable.ofJson) (parentsMembers ms) ts
          ∧ d'.parents = (ts.reverse.lookup parentsKey).getD d.parents := by
  -- The two kinds of members are read into parts that do not meet, so the loop splits into two.
  induction ms generalizing d with
  | nil =>
      constructor
      · intro h
        cases h
        exact ⟨⟨[], .nil, rfl⟩, [], .nil, rfl⟩
      · rintro ⟨⟨ps, hps, hentries⟩, ts, hts, hparents⟩
        cases hps
        cases hts
        obtain ⟨entries, parents⟩ := d'
        exact congrArg Except.ok (Document.mk.injEq .. ▸ ⟨hentries.symm, hparents.symm⟩)
  | cons m ms ih =>
      obtain ⟨key, value⟩ := m
      rw [Document.ofMembers]
      by_cases hkey : key = parentsKey
      · -- the table that comes first is forgotten if another one comes
        have hlast : ∀ (t : ParentTable) (ts : List (String × ParentTable)),
            (((key, t) :: ts).reverse.lookup parentsKey).getD d.parents
              = (ts.reverse.lookup parentsKey).getD t := by
          intro t ts
          rw [lookup_reverse_cons, if_pos hkey.symm]
          cases ts.reverse.lookup parentsKey <;> rfl
        have hinterfaces : interfaceMembers ((key, value) :: ms) = interfaceMembers ms :=
          List.filter_cons_of_neg (by simp [hkey])
        have htables : parentsMembers ((key, value) :: ms) = (key, value) :: parentsMembers ms :=
          List.filter_cons_of_pos (by simp [hkey])
        rw [if_pos hkey, hinterfaces, htables]
        constructor
        · intro h
          split at h
          · cases h
          · next t ht =>
            obtain ⟨hentries, ts, hts, hparents⟩ := ih.mp h
            exact ⟨hentries, (key, t) :: ts, .cons ⟨rfl, ht⟩ hts, hparents.trans (hlast t ts).symm⟩
        · rintro ⟨hentries, ts, hts, hparents⟩
          cases hts with
          | @cons _ p _ ts hhead htail =>
              obtain ⟨k, t⟩ := p
              obtain ⟨rfl, ht⟩ := hhead
              rw [show ParentTable.ofJson value = .ok t from ht]
              exact ih.mpr ⟨hentries, ts, htail, hparents.trans (hlast t ts)⟩
      · have hinterfaces :
            interfaceMembers ((key, value) :: ms) = (key, value) :: interfaceMembers ms :=
          List.filter_cons_of_pos (by simpa using hkey)
        have htables : parentsMembers ((key, value) :: ms) = parentsMembers ms :=
          List.filter_cons_of_neg (by simpa using hkey)
        rw [if_neg hkey, hinterfaces, htables]
        constructor
        · intro h
          split at h
          · cases h
          · next entries hvalue =>
            obtain ⟨⟨ps, hps, hentries⟩, hparents⟩ := ih.mp h
            exact ⟨⟨(key, entries) :: ps, .cons ⟨rfl, hvalue⟩ hps, hentries⟩, hparents⟩
        · rintro ⟨⟨ps, hps, hentries⟩, hparents⟩
          cases hps with
          | @cons _ p _ ps hhead htail =>
              obtain ⟨k, entries⟩ := p
              obtain ⟨rfl, hvalue⟩ := hhead
              rw [show asList Entry.ofJson value = .ok entries from hvalue]
              exact ih.mpr ⟨⟨ps, htail, hentries⟩, hparents⟩

/-- **REPEATED KEYS**: what a document is decoded from may be settled first. -/
theorem settles_document : Settles Document.ofJson := by
  intro j d h
  cases j with
  | object ms =>
      obtain ⟨taken, htaken, rfl⟩ := of_map_eq_ok h
      obtain ⟨⟨ps, hps, hentries⟩, ts, hts, hparents⟩ := Document.ofMembers_eq_ok_iff.mp htaken
      -- settling keeps the keys, so it may be done behind the choice by key
      have hinterfaces := decodesPair_settleMembers (settles_asList settles_entry) hps
      have htables := decodesPair_settleMembers settles_parentTable hts
      rw [interfaceMembers, ← filter_settleMembers fun key => key != parentsKey] at hinterfaces
      rw [parentsMembers, ← filter_settleMembers fun key => key == parentsKey] at htables
      have hsettled : Document.ofMembers Document.empty (settleMembers [] ms) = .ok taken := by
        refine Document.ofMembers_eq_ok_iff.mpr ⟨⟨_, hinterfaces, ?_⟩, _, htables, ?_⟩
        · exact hentries.trans (foldl_put_settled ps).symm
        · rw [lookup_reverse_settled]
          exact hparents
      rw [settle, Document.ofJson, hsettled]
      rfl
  | _ => cases h

end Bindery
