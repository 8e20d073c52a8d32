import Bindery.Document.Reader
import Bindery.Proofs.Document.Codec
import Bindery.Proofs.Document.Counts
import Bindery.Proofs.Json.RoundTrip

/-!
# Reading a printed document

A printed document is read back, by way of its value (`Document.ofTextValue_pretty`) and
straight from the text (`Document.ofText_pretty`).  The first way loses an interface that
has the name of the parents' key, the second one stops at it.  Either way the parameters of
methods are counted anew, so what comes back is the document that was printed exactly if its
counts are right (`Document.ofText_pretty_eq_self_iff`).

Counts are printed as integers of 64 bits, so they have to be such numbers
(`Document.CountsFit`), as the lengths of lists in memory are.
-/

namespace Bindery

open Json

/-! ## Counts of 64 bits -/

/-- The counts of an entry, if it is a method, are numbers of 64 bits. -/
def Entry.CountsFit : Entry → Prop
  | .method m => m.arity < 2 ^ 64 ∧ m.required < 2 ^ 64
  | .property _ => True
  | .event _ => True

/-- The counts of every method of a document are numbers of 64 bits. -/
def Document.CountsFit (d : Document) : Prop := d.Every Entry.CountsFit

/-- What is left when an interface is dropped has the counts that it had. -/
theorem Document.Counted.dropReserved {d : Document} (h : d.Counted) : d.dropReserved.Counted :=
  Every.keep h fun name => name != parentsKey

/-- Right counts of lists that are short enough. -/
theorem Entry.Counted.countsFit {e : Entry} {n : Nat} (h : e.Counted) (hle : e.ParametersLe n)
    (hn : n < 2 ^ 64) : e.CountsFit := by
  cases e with
  | method m =>
      have harity : m.arity < 2 ^ 64 := by
        rw [h.arity]
        exact Nat.lt_of_le_of_lt hle hn
      have hrequired : m.required ≤ m.arity := by
        rw [h.required, h.arity]
        exact List.countP_le_length
      exact ⟨harity, Nat.lt_of_le_of_lt hrequired harity⟩
  | property p => trivial
  | event p => trivial

/-- A count that fits is read as the same integer. -/
theorem readable_ofNat {n : Nat} (h : n < 2 ^ 64) (budget : Nat) :
    Readable budget (Json.ofNat n) := by
  have hrange : -(2 ^ 63) ≤ (n : Int) ∧ (n : Int) < 2 ^ 64 := by omega
  cases budget <;> exact hrange

theorem readable_string (s : String) (budget : Nat) : Readable budget (.string s) := by
  cases budget <;> trivial

/-- A member that may be missing is a text where it is written. -/
theorem readable_optionalMember {key : String} {part : Option String} {budget : Nat} :
    ∀ m ∈ optionalMember key part, Readable budget m.2 := by
  intro m hm
  cases part with
  | none => cases hm
  | some s =>
      rw [List.mem_singleton.mp hm]
      exact readable_string s budget

/-- A parameter can be read at the depth at which it stands. -/
theorem readable_parameter (p : Parameter) (budget : Nat) : Readable (budget + 1) p.toJson := by
  intro m hm
  simp only [List.mem_cons, List.not_mem_nil, or_false] at hm
  rcases hm with rfl | rfl | rfl | rfl <;> cases budget <;> trivial

/-- The members of an entry are read back with two containers to spare. -/
theorem readable_members {e : Entry} (h : e.CountsFit) (budget : Nat) :
    ∀ m ∈ e.members, Readable (budget + 2) m.2 := by
  have hproperty : ∀ p : PropertyEntry, ∀ m ∈ p.members, Readable (budget + 2) m.2 := by
    intro p m hm
    rcases List.mem_append.mp hm with hfixed | hdoc
    · simp only [List.mem_cons, List.not_mem_nil, or_false] at hfixed
      rcases hfixed with rfl | rfl | rfl <;> trivial
    · exact readable_optionalMember m hdoc
  -- The two counts are the only members that need the bound; texts, lists and switches are read
  -- at any size.
  cases e with
  | method e =>
      obtain ⟨harity, hrequired⟩ : e.arity < 2 ^ 64 ∧ e.required < 2 ^ 64 := h
      intro m hm
      rcases List.mem_append.mp hm with hfront | hdoc
      · rcases List.mem_append.mp hfront with hfixed | hthis
        · simp only [List.mem_cons, List.not_mem_nil, or_false] at hfixed
          rcases hfixed with rfl | rfl | rfl | rfl | rfl | rfl
          · trivial
          · trivial
          · intro j hj
            obtain ⟨p, -, rfl⟩ := List.mem_map.mp hj
            exact readable_parameter p budget
          · exact readable_ofNat harity _
          · exact readable_ofNat hrequired _
          · trivial
        · exact readable_optionalMember m hthis
      · exact readable_optionalMember m hdoc
  | property p => exact hproperty p
  | event p => exact hproperty p

/-- An entry can be read, with its list of parameters inside. -/
theorem readable_entry {e : Entry} (h : e.CountsFit) (budget : Nat) :
    Readable (budget + 3) e.toJson := by
  intro m hm
  rcases List.mem_cons.mp hm with rfl | hmem
  · exact readable_string _ _
  · exact readable_members h budget m hmem

/-- The entries of an interface can be read. -/
theorem readable_entries {es : List Entry} (h : ∀ e ∈ es, e.CountsFit) (budget : Nat) :
    Readable (budget + 4) (entriesToJson es) := by
  intro j hj
  obtain ⟨e, he, rfl⟩ := List.mem_map.mp hj
  exact readable_entry (h e he) budget

/-- The table of parents can be read. -/
theorem readable_parents (t : ParentTable) (budget : Nat) : Readable (budget + 2) t.toJson := by
  intro m hm
  obtain ⟨e, -, rfl⟩ := List.mem_map.mp hm
  intro j hj
  obtain ⟨s, -, rfl⟩ := List.mem_map.mp hj
  exact readable_string s _

/-- The tree of a document is read back. -/
theorem readable_tree {d : Document} (h : d.CountsFit) (budget : Nat) :
    Readable (budget + 5) d.tree := by
  intro m hm
  rcases List.mem_append.mp hm with hmem | hlast
  · obtain ⟨i, hi, rfl⟩ := List.mem_map.mp hmem
    exact readable_entries (h i hi) budget
  · rw [List.mem_singleton.mp hlast]
    exact readable_parents d.parents (budget + 2)

/-! ## By way of the value -/

/-- The value of a printed document is the value of the document. -/
theorem ofText_pretty_document {d : Document} (h : d.CountsFit) :
    Json.ofText d.pretty = .ok d.toJson :=
  ofText_pretty (readable_tree h 122)

/-- **BY WAY OF THE VALUE**: a printed document is read back with its parameters counted anew,
but for an interface with the name of the parents' key. -/
theorem Document.ofTextValue_pretty {d : Document} (h : d.CountsFit) :
    Document.ofTextValue d.pretty = .ok d.dropReserved.refreshCounts := by
  rw [Document.ofTextValue]
  rw [ofText_pretty_document h]
  simp only [d.ofJson_toJson]

/-! ## Straight from the text -/

section Readers

variable {level : Nat}

/-- A text that is put to use is read back. -/
theorem readsBack_text {α : Type} {use : String → Except Mismatch α} {s : String} {x : α}
    (h : use s = .ok x) (expected : String) :
    ReadsBack (readText expected use) (write level (.string s)) x := by
  intro space rest hspace _
  have hread := stringRest_writeString s rest
  rw [readText]
  rw [write, writeString, List.cons_append, skipSpace_blank hspace rfl]
  simp only [List.append_assoc, List.cons_append, List.nil_append]
  simp [hread, h]

/-- What follows the kind of an entry is set aside in reverse. -/
theorem takes_members {ms : List (String × Json)} (hkeys : "kind" ∉ ms.map Prod.fst)
    (hms : ∀ m ∈ ms, Readable entryDepth m.2) (kind : Option EntryKind)
    (done : List (String × Json)) :
    Takes takeEntryMember level (kind, done) ms (kind, ms.reverse ++ done) := by
  induction ms generalizing done with
  | nil => exact Takes.nil _
  | cons m ms ih =>
      obtain ⟨key, j⟩ := m
      rw [List.forall_mem_cons] at hms
      rw [List.map_cons, List.mem_cons, not_or] at hkeys
      have hkey : ¬ key = "kind" := fun heq => hkeys.1 heq.symm
      have hlast : ((key, j) :: ms).reverse ++ done = ms.reverse ++ ((key, j) :: done) := by simp
      rw [hlast]
      refine Takes.cons ?_ (ih hkeys.2 hms.2 _)
      intro rest hrest
      have hvalue : ReadsBack readInside (write level j) j := readsBack_value hms.1 level
      rw [takeEntryMember, if_neg hkey, memberValue_readsBack hvalue hrest]

/-- A written entry is read back up to its kind and its other members. -/
theorem readsBack_content {e : Entry} (h : e.CountsFit) :
    ReadsBack readContent (write level e.toJson) (e.kind, .members e.members) := by
  have hkind : ReadsBack readKind (write (level + 1) (.string e.kind.name)) e.kind :=
    readsBack_text (kindOfName_name e.kind) kindExpected
  have htakes : Takes takeEntryMember (level + 1) (none, [])
      (("kind", .string e.kind.name) :: e.members) (some e.kind, e.members.reverse ++ []) := by
    refine Takes.cons ?_ (takes_members (List.nodup_cons.mp e.nodup_members).1
      (readable_members h (entryDepth - 2)) _ [])
    intro rest hrest
    rw [takeEntryMember, if_pos rfl, memberValue_readsBack hkind hrest]
    rfl
  have hfinish : finishEntry (some e.kind, e.members.reverse ++ [])
      = .ok (e.kind, .members e.members) := by
    simp [finishEntry]
  have hobject := readsBack_object entryExpected finishEntry htakes hfinish
  intro space rest hspace hrest
  have hread := hobject [] rest blank_nil hrest
  -- the reader looks for a bracket first
  obtain ⟨cs, hcs⟩ : ∃ cs, write level (.object (("kind", .string e.kind.name) :: e.members))
      = '\x7b' :: cs := ⟨_, by rw [write]⟩
  rw [Entry.toJson]
  rw [hcs] at hread ⊢
  rw [readContent]
  rw [List.cons_append, skipSpace_blank hspace rfl]
  exact hread

/-- A written entry is read back. -/
theorem readsBack_entry {e : Entry} (h : e.CountsFit) :
    ReadsBack readEntry (write level e.toJson) e := by
  intro space rest hspace hrest
  rw [readEntry]
  rw [readsBack_content h space rest hspace hrest]
  simp only [e.ofContent_members]

/-- The written entries of an interface are read back. -/
theorem readsBack_entries {es : List Entry} (h : ∀ e ∈ es, e.CountsFit) :
    ReadsBack (readList readEntry) (write level (entriesToJson es)) es :=
  readsBack_list Entry.toJson (fun e he => readsBack_entry (h e he))
    (fun e he => opens_write (readable_entry (h e he) 0) (level + 1))

/-- Written names are read back. -/
theorem readsBack_names (names : List String) :
    ReadsBack (readList readString) (write level (.array (names.map .string))) names :=
  readsBack_list Json.string (fun _ _ => readsBack_text rfl "a string")
    (fun s _ => opens_write (readable_string s 0) (level + 1))

/-- A written table of parents is read back. -/
theorem readsBack_parents (t : ParentTable) :
    ReadsBack readParents (write level t.toJson) t := by
  have htakes : Takes takeChild (level + 1) Keyed.empty
      (t.entries.map fun e => (e.1, .array (e.2.map .string)))
      (t.entries.foldl (fun t e => t.put e.1 e.2) Keyed.empty) := by
    refine Takes.of_foldl ?_ Keyed.empty
    intro e _ s rest hrest
    rw [takeChild, memberValue_readsBack (readsBack_names e.2) hrest]
  rw [Keyed.foldl_put_entries] at htakes
  exact readsBack_object "a map" .ok htakes rfl

/-- The interfaces of a written document are taken in one after the other. -/
theorem takes_interfaces {es : List (String × List Entry)} (hkeys : parentsKey ∉ es.map Prod.fst)
    (hes : ∀ i ∈ es, ∀ e ∈ i.2, e.CountsFit) (d : Document) :
    Takes takeInterface level d (es.map interfaceMember)
      { d with entries := es.foldl (fun t e => t.put e.1 e.2) d.entries } := by
  induction es generalizing d with
  | nil => exact Takes.nil d
  | cons i es ih =>
      rw [List.forall_mem_cons] at hes
      rw [List.map_cons, List.mem_cons, not_or] at hkeys
      have hkey : ¬ i.1 = parentsKey := fun heq => hkeys.1 heq.symm
      refine Takes.cons ?_ (ih hkeys.2 hes.2 { d with entries := d.entries.put i.1 i.2 })
      intro rest hrest
      rw [takeInterface, if_neg hkey, memberValue_readsBack (readsBack_entries hes.1) hrest]

/-- A written document is read back, its parameters counted anew. -/
theorem readsBack_document {d : Document} (h : d.CountsFit)
    (hkeys : parentsKey ∉ d.entries.keys) :
    ReadsBack readDocument (write level d.tree) d.refreshCounts := by
  have hinterfaces : Takes takeInterface (level + 1) Document.empty
      (d.entries.entries.map interfaceMember)
      { Document.empty with
        entries := d.entries.entries.foldl (fun t e => t.put e.1 e.2) Keyed.empty } :=
    takes_interfaces hkeys h Document.empty
  rw [Keyed.foldl_put_entries] at hinterfaces
  have hparents : Takes takeInterface (level + 1) { Document.empty with entries := d.entries }
      [(parentsKey, d.parents.toJson)] d := by
    refine Takes.cons ?_ (Takes.nil d)
    intro rest hrest
    rw [takeInterface, if_pos rfl, memberValue_readsBack (readsBack_parents d.parents) hrest]
  exact readsBack_object documentExpected (fun d => .ok d.refreshCounts)
    (hinterfaces.append hparents) rfl

end Readers

/-- **STRAIGHT FROM THE TEXT**: a printed document is read back with its parameters counted
anew if no interface has the name of the parents' key. -/
theorem Document.ofText_pretty {d : Document} (h : d.CountsFit)
    (hkeys : parentsKey ∉ d.entries.keys) : Document.ofText d.pretty = .ok d.refreshCounts := by
  have hread : readDocument ([] ++ (write 0 d.tree ++ [])) = .ok (d.refreshCounts, []) :=
    readsBack_document h hkeys [] [] blank_nil detached_nil
  rw [List.nil_append, List.append_nil] at hread
  rw [Document.ofText, readWhole, Document.pretty, Json.pretty]
  rw [String.toList_ofList, hread]
  rfl

/-- A document is what its printed text is read as exactly if its counts are right. -/
theorem Document.ofText_pretty_eq_self_iff {d : Document} (h : d.CountsFit)
    (hkeys : parentsKey ∉ d.entries.keys) : Document.ofText d.pretty = .ok d ↔ d.Counted := by
  rw [Document.ofText_pretty h hkeys, Except.ok.injEq, Document.refreshCounts_eq_self_iff]

/-- A document is what its value is decoded as exactly if its counts are right. -/
theorem Document.ofJson_toJson_eq_self_iff {d : Document}
    (hkeys : parentsKey ∉ d.entries.keys) : Document.ofJson d.toJson = .ok d ↔ d.Counted := by
  rw [Document.ofJson_toJson, Document.dropReserved_eq_self hkeys, Except.ok.injEq,
    Document.refreshCounts_eq_self_iff]

end Bindery
