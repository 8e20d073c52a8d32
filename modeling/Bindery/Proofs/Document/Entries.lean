import Bindery.Proofs.Extraction.Recorded

/-!
# Entries one by one

What holds of every entry of a document (`Document.Every`) is not lost when interfaces are kept
by name, written, or extended, and it holds of what is extracted if it holds of the entry of
every member.

The counts of methods are such a property.  They are stored, so a method may have counts that
are not those of its parameters, and a text may hold such a method.  Counting anew is what
mends that: the methods it leaves as they are, are those whose counts are right
(`MethodEntry.refreshCounts_eq_self_iff`), and with them the entries and the documents
(`Document.refreshCounts_eq_self_iff`).  The ways in which a program makes an entry lead to
right counts only, and to all of them (`Entry.built_iff_counted`).
-/

namespace Bindery

/-! ## Every entry of a document -/

/-- Every entry of a document meets `Q`. -/
def Document.Every (Q : Entry → Prop) (d : Document) : Prop :=
  ∀ i ∈ d.entries.entries, ∀ e ∈ i.2, Q e

namespace Document.Every

variable {Q : Entry → Prop} {d : Document}

/-- An empty document has no entry that could fail. -/
theorem of_empty : Document.empty.Every Q := by simp [Every, Document.empty]

/-- The table of parents has no entries. -/
theorem parents (h : d.Every Q) (t : ParentTable) : ({ d with parents := t } : Document).Every Q :=
  h

/-- What is kept by name is kept whole. -/
theorem keep (h : d.Every Q) (p : String → Bool) :
    ({ d with entries := d.entries.keep p } : Document).Every Q :=
  fun i hi => h i (List.mem_filter.mp hi).1

/-- An interface is written from what stood there. -/
theorem upsert (h : d.Every Q) (name : String) {f : Option (List Entry) → List Entry}
    (hnone : ∀ e ∈ f none, Q e) (hsome : ∀ es, (∀ e ∈ es, Q e) → ∀ e ∈ f (some es), Q e) :
    ({ d with entries := d.entries.upsert name f } : Document).Every Q :=
  forall_upsertPair (P := fun es : List Entry => ∀ e ∈ es, Q e) h hnone hsome

/-- Entries that are put in place of others have to have the property. -/
theorem put (h : d.Every Q) (name : String) {es : List Entry} (hes : ∀ e ∈ es, Q e) :
    ({ d with entries := d.entries.put name es } : Document).Every Q :=
  h.upsert name hes fun _ _ => hes

/-- Entries that are put behind others have to have it too. -/
theorem extend (h : d.Every Q) (name : String) {es : List Entry} (hes : ∀ e ∈ es, Q e) :
    ({ d with entries := d.entries.extend name es } : Document).Every Q := by
  refine h.upsert name hes ?_
  intro old hold
  rw [Option.getD_some, List.forall_mem_append]
  exact ⟨hold, hes⟩

/-- Restricting keeps by name. -/
theorem restrict {x : Extraction} (h : x.document.Every Q) (selected : List String) :
    (x.restrict selected).document.Every Q := by
  rw [Extraction.restrict]
  split
  · exact h
  · exact (h.keep selected.contains).parents _

/-- What counting anew makes of the entries. -/
theorem refreshCounts (h : d.Every Q) (hQR : ∀ e, Q e → R e.refreshCounts) :
    d.refreshCounts.Every R := by
  intro i hi e he
  obtain ⟨before, hbefore, rfl⟩ := List.mem_map.mp hi
  obtain ⟨old, hold, rfl⟩ := List.mem_map.mp he
  exact hQR old (h before hbefore old hold)

/-- What holds of the members of declarations, put as a property of entries, holds of the
entries that are extracted from them. -/
theorem ofDeclarations {ds : List Declaration} {P : Member → Prop}
    (hPQ : ∀ interface m, P m → Q (Entry.ofMember interface m))
    (h : ∀ d ∈ ds, ∀ m ∈ d.members, P m) : (Extraction.ofDeclarations ds).document.Every Q := by
  intro i hi e he
  rw [Extraction.eq_map_of_mem_entries hi] at he
  obtain ⟨m, hm, rfl⟩ := List.mem_map.mp he
  obtain ⟨d, hd, -, hmember⟩ := mem_membersOf.mp hm
  exact hPQ i.1 m (h d hd m hmember)

end Document.Every

/-! ## Counts -/

/-- The counts of a method are those of its parameters. -/
structure MethodEntry.Counted (m : MethodEntry) : Prop where
  arity : m.arity = m.parameters.length
  required : m.required = m.parameters.countP fun p => !p.optional

/-- The counts of an entry, if it is a method, are those of its parameters. -/
def Entry.Counted : Entry → Prop
  | .method m => m.Counted
  | .property _ => True
  | .event _ => True

/-- The counts of every method of a document are those of its parameters. -/
def Document.Counted (d : Document) : Prop := d.Every Entry.Counted

/-- Counts that were just refreshed are right. -/
theorem MethodEntry.counted_refreshCounts (m : MethodEntry) : m.refreshCounts.Counted :=
  ⟨rfl, List.countP_eq_length_filter.symm⟩

/-- The counts of a new method are right, though it begins with zeroes. -/
theorem MethodEntry.counted_new (interface name : String) (parameters : List Parameter)
    (returnType : String) : (MethodEntry.new interface name parameters returnType).Counted :=
  counted_refreshCounts _

/-- Counting anew leaves a method as it is exactly if its counts are right. -/
theorem MethodEntry.refreshCounts_eq_self_iff {m : MethodEntry} :
    m.refreshCounts = m ↔ m.Counted := by
  constructor
  · intro h
    rw [← h]
    exact m.counted_refreshCounts
  · intro h
    obtain ⟨interface, name, parameters, arity, required, returnType, thisType, doc⟩ := m
    obtain ⟨rfl, rfl⟩ : arity = parameters.length
        ∧ required = parameters.countP fun p => !p.optional := ⟨h.arity, h.required⟩
    rw [refreshCounts, ← List.countP_eq_length_filter]

/-- An entry of another kind has no counts to be wrong. -/
theorem Entry.counted_refreshCounts (e : Entry) : e.refreshCounts.Counted := by
  cases e with
  | method m => exact m.counted_refreshCounts
  | property p => trivial
  | event p => trivial

/-- Refreshing changes nothing exactly if there was nothing to correct. -/
theorem Entry.refreshCounts_eq_self_iff {e : Entry} : e.refreshCounts = e ↔ e.Counted := by
  cases e with
  | method m => exact Entry.method.injEq .. ▸ MethodEntry.refreshCounts_eq_self_iff
  | property p => exact iff_of_true rfl trivial
  | event p => exact iff_of_true rfl trivial

/-- **AFTER LOADING** every count is right, whatever the text said. -/
theorem Document.counted_refreshCounts (d : Document) : d.refreshCounts.Counted :=
  Every.refreshCounts (Q := fun _ => True) (fun _ _ _ _ => trivial)
    fun e _ => e.counted_refreshCounts

/-- Counting anew leaves a document as it is exactly if all of its counts are right. -/
theorem Document.refreshCounts_eq_self_iff {d : Document} : d.refreshCounts = d ↔ d.Counted := by
  constructor
  · intro h
    rw [← h]
    exact d.counted_refreshCounts
  · intro h
    have hentries : ∀ i ∈ d.entries.entries, (i.1, i.2.map Entry.refreshCounts) = id i := by
      intro i hi
      have hsame : ∀ e ∈ i.2, e.refreshCounts = id e := fun e he =>
        Entry.refreshCounts_eq_self_iff.mpr (h i hi e he)
      rw [List.map_congr_left hsame, List.map_id, id]
    have htable : d.entries.mapValues (fun es => es.map Entry.refreshCounts) = d.entries := by
      apply Keyed.ext
      rw [Keyed.entries_mapValues, List.map_congr_left hentries, List.map_id]
    rw [Document.refreshCounts, htable]

/-- Counting anew leaves the interfaces where they are. -/
theorem Document.keys_refreshCounts (d : Document) :
    d.refreshCounts.entries.keys = d.entries.keys :=
  Keyed.keys_mapValues d.entries _

/-- The entry of a member has the counts of its parameters. -/
theorem Entry.counted_ofMember (interface : String) (m : Member) :
    (Entry.ofMember interface m).Counted := by
  cases m with
  | method m =>
      have hnew := MethodEntry.counted_new interface m.name m.parameters m.returnType
      exact ⟨hnew.arity, hnew.required⟩
  | property p =>
      rw [Entry.ofMember]
      split <;> trivial

/-- **EXTRACTED COUNTS** are those of the parameters. -/
theorem counted_ofDeclarations (ds : List Declaration) :
    (Extraction.ofDeclarations ds).document.Counted :=
  Document.Every.ofDeclarations (P := fun _ => True)
    (fun interface m _ => Entry.counted_ofMember interface m) fun _ _ _ _ => trivial

/-! ## How entries are made -/

/-- The entries that a program makes: a new method, to which a type for `this` is given, a new
property or event, and any of these with another description. -/
inductive Entry.Built : Entry → Prop
  | method (interface name : String) (parameters : List Parameter) (returnType : String)
      (thisType : Option String) :
      Built (.method
        { MethodEntry.new interface name parameters returnType with thisType := thisType })
  | property (interface name typeText : String) :
      Built (.property (.new interface name typeText))
  | event (interface name typeText : String) : Built (.event (.new interface name typeText))
  | withDoc {e : Entry} (doc : Option String) (h : Built e) : Built (e.withDoc doc)

/-- A description is no part of what is counted. -/
theorem Entry.Counted.withDoc {e : Entry} (h : e.Counted) (doc : Option String) :
    (e.withDoc doc).Counted := by
  cases e with
  | method m => exact ⟨h.arity, h.required⟩
  | property p => trivial
  | event p => trivial

/-- The entries that a program makes are those with right counts. -/
theorem Entry.built_iff_counted {e : Entry} : e.Built ↔ e.Counted := by
  constructor
  · intro h
    induction h with
    | method interface name parameters returnType thisType =>
        have hnew := MethodEntry.counted_new interface name parameters returnType
        exact ⟨hnew.arity, hnew.required⟩
    | property => trivial
    | event => trivial
    | withDoc doc _ ih => exact ih.withDoc doc
  · intro h
    cases e with
    | method m =>
        have hbuilt := (Built.method m.interface m.name m.parameters m.returnType
          m.thisType).withDoc m.doc
        -- `new` counts the parameters, and these are the counts of `m`
        rw [← MethodEntry.refreshCounts_eq_self_iff.mpr h]
        exact hbuilt
    | property p => exact (Built.property p.interface p.name p.typeText).withDoc p.doc
    | event p => exact (Built.event p.interface p.name p.typeText).withDoc p.doc

end Bindery
