import Bindery.Document.Encode
import Bindery.Proofs.Declaration.Merge
import Bindery.Proofs.Extraction.Restriction
import Mathlib.Data.List.Forall2
import Mathlib.Data.List.Induction
import Mathlib.Data.List.Nodup

/-!
# Extractions follow their declarations

An extraction keeps the same interfaces in three places: in its list of names, in the table of
entries, and as the interface that each entry names.  Declarations come one after the other and
change these places apart from each other, some of them the table of parents only.  That the
places stay in step is an invariant of taking in a declaration (`InStep.add`) and of restricting
(`InStep.restrict`).

Under an interface stand the entries of all members that are declared for it, in order
(`entriesOf_ofDeclarations`), so each entry is compared with its own member (`Entry.Records`).
The headline is `follows_restrictAll`: after any restrictions, of merged declarations or of
declarations as they are.
-/

namespace Bindery

/-! ## What an entry records of a member -/

namespace Member

/-- Whether a member is a method. -/
def isMethod : Member → Bool
  | .method _ => true
  | .property _ => false

/-- The text of the type of a member; that of a method is the type of its results. -/
def typeText : Member → String
  | .method m => m.returnType
  | .property p => p.typeText

/-- The type given to a leading parameter `this`. -/
def thisType : Member → Option String
  | .method m => m.thisType
  | .property _ => none

/-- The description of a member. -/
def doc : Member → Option String
  | .method m => m.doc
  | .property p => p.doc

/-- The parameters of a member; a property has none. -/
def parameters : Member → List Parameter
  | .method m => m.parameters
  | .property _ => []

end Member

namespace Entry

/-- The text of the type of an entry; that of a method is the type of its results. -/
def typeText : Entry → String
  | .method m => m.returnType
  | .property p => p.typeText
  | .event p => p.typeText

/-- The type given to a leading parameter `this`. -/
def thisType : Entry → Option String
  | .method m => m.thisType
  | .property _ => none
  | .event _ => none

/-- The parameters of an entry; properties and events have none. -/
def parameters : Entry → List Parameter
  | .method m => m.parameters
  | .property _ => []
  | .event _ => []

/-- The entry of an interface records a member. -/
structure Records (e : Entry) (interface : String) (m : Member) : Prop where
  interface : e.interface = interface
  name : e.name = m.name
  typeText : e.typeText = m.typeText
  doc : e.doc = m.doc
  thisType : e.thisType = m.thisType
  parameters : e.parameters = m.parameters
  method_iff : e.kind = .method ↔ m.isMethod = true
  event_iff : e.kind = .event ↔ m.isMethod = false ∧ Naming.isEvent m.name = true
  property_iff : e.kind = .property ↔ m.isMethod = false ∧ Naming.isEvent m.name = false
  /-- The counts of a method, as they are and as they are written, are those of the parameters
  of the member. -/
  counts : ∀ entry, e = .method entry →
    entry.arity = m.parameters.length ∧ entry.required = m.parameters.countP (fun p => !p.optional)
      ∧ ("arity", Json.ofNat m.parameters.length) ∈ e.members
      ∧ ("required", Json.ofNat (m.parameters.countP fun p => !p.optional)) ∈ e.members

/-- A method is an entry of its own kind, and a property is an event if its name says so. -/
theorem kind_ofMember (interface : String) (m : Member) :
    (Entry.ofMember interface m).kind
      = if m.isMethod then .method else if Naming.isEvent m.name then .event else .property := by
  cases m with
  | method m => rfl
  | property p => exact apply_ite Entry.kind _ _ _

/-- The counts of a method stand behind its parameters where it is written. -/
theorem counts_mem_members (m : MethodEntry) :
    ("arity", Json.ofNat m.arity) ∈ m.members
      ∧ ("required", Json.ofNat m.required) ∈ m.members := by
  rw [MethodEntry.members]
  refine ⟨List.mem_append_left _ (List.mem_append_left _ ?_),
    List.mem_append_left _ (List.mem_append_left _ ?_)⟩
  · exact .tail _ (.tail _ (.tail _ (.head _)))
  · exact .tail _ (.tail _ (.tail _ (.tail _ (.head _))))

/-- The entry that is made of a member records it. -/
theorem records_ofMember (interface : String) (m : Member) :
    (Entry.ofMember interface m).Records interface m := by
  have hkind := kind_ofMember interface m
  have hmethod : (Entry.ofMember interface m).kind = .method ↔ m.isMethod = true := by
    rw [hkind]
    cases m.isMethod <;> cases Naming.isEvent m.name <;> decide
  have hevent : (Entry.ofMember interface m).kind = .event
      ↔ m.isMethod = false ∧ Naming.isEvent m.name = true := by
    rw [hkind]
    cases m.isMethod <;> cases Naming.isEvent m.name <;> decide
  have hproperty : (Entry.ofMember interface m).kind = .property
      ↔ m.isMethod = false ∧ Naming.isEvent m.name = false := by
    rw [hkind]
    cases m.isMethod <;> cases Naming.isEvent m.name <;> decide
  cases m with
  | method m =>
      refine ⟨rfl, rfl, rfl, rfl, rfl, rfl, hmethod, hevent, hproperty, ?_⟩
      intro entry hentry
      -- the method is new, so its counts are those of its parameters
      have hnew := Entry.method.inj hentry
      have harity : entry.arity = m.parameters.length := by
        rw [← hnew]
        rfl
      have hrequired : entry.required = m.parameters.countP fun p => !p.optional := by
        rw [← hnew]
        exact List.countP_eq_length_filter.symm
      obtain ⟨hwritten, hwritten'⟩ := counts_mem_members entry
      rw [harity] at hwritten
      rw [hrequired] at hwritten'
      rw [hentry]
      exact ⟨harity, hrequired, hwritten, hwritten'⟩
  | property p =>
      -- a property or an event, by its name; either has the same parts and no counts
      obtain h | h : Entry.ofMember interface (.property p)
            = .event ⟨interface, p.name, p.typeText, p.doc⟩
          ∨ Entry.ofMember interface (.property p)
            = .property ⟨interface, p.name, p.typeText, p.doc⟩ := by
        rw [ofMember]
        exact ite_eq_or_eq _ _ _
      · rw [h] at hmethod hevent hproperty ⊢
        refine ⟨rfl, rfl, rfl, rfl, rfl, rfl, hmethod, hevent, hproperty, ?_⟩
        intro entry hentry
        cases hentry
      · rw [h] at hmethod hevent hproperty ⊢
        refine ⟨rfl, rfl, rfl, rfl, rfl, rfl, hmethod, hevent, hproperty, ?_⟩
        intro entry hentry
        cases hentry

end Entry

namespace Extraction

variable {x : Extraction} {d : Declaration} {ds : List Declaration} {i : String}

/-! ## The entries of an interface -/

/-- A declaration adds the entries of its members to those of its interface. -/
theorem entriesOf_add (x : Extraction) (d : Declaration) (i : String) :
    (x.add d).document.entries.entriesOf i
      = x.document.entries.entriesOf i
        ++ (if d.name = i then d.members else []).map (Entry.ofMember i) := by
  rw [add]
  by_cases hmembers : d.members = []
  · rw [if_pos (List.isEmpty_iff.mpr hmembers), hmembers, ite_self, List.map_nil, List.append_nil]
  · rw [if_neg (by rwa [List.isEmpty_iff])]
    show ((x.document.entries.extend d.name _).get? i).getD [] = _
    rw [EntryTable.extend, Keyed.get?_upsert]
    by_cases hname : i = d.name
    · rw [if_pos hname, if_pos hname.symm, hname]
      rfl
    · rw [if_neg hname, if_neg fun heq => hname heq.symm, List.map_nil, List.append_nil]
      rfl

/-- The entries of an interface are those of all members that are declared for it. -/
theorem entriesOf_foldl_add (ds : List Declaration) (x : Extraction) (i : String) :
    (ds.foldl add x).document.entries.entriesOf i
      = x.document.entries.entriesOf i ++ (membersOf ds i).map (Entry.ofMember i) := by
  induction ds generalizing x with
  | nil => exact (List.append_nil _).symm
  | cons d ds ih =>
      rw [List.foldl_cons, ih, entriesOf_add, membersOf_cons, List.map_append, List.append_assoc]

/-- The entries of an interface are those of its members, in order. -/
theorem entriesOf_ofDeclarations (ds : List Declaration) (i : String) :
    (ofDeclarations ds).document.entries.entriesOf i
      = (membersOf ds i).map (Entry.ofMember i) := by
  rw [ofDeclarations, entriesOf_foldl_add]
  rfl

/-- What stands under an interface is what its members give. -/
theorem eq_map_of_mem_entries {e : String × List Entry}
    (he : e ∈ (ofDeclarations ds).document.entries.entries) :
    e.2 = (membersOf ds e.1).map (Entry.ofMember e.1) := by
  have h := entriesOf_ofDeclarations ds e.1
  rwa [EntryTable.entriesOf, (Keyed.get?_eq_some_iff _ _ _).mpr he, Option.getD_some] at h

/-! ## The places that stay in step -/

/-- The interfaces are the same in the list of names and in the table of entries, and neither
table has a list that is empty; nor has a list of parents repetitions. -/
structure InStep (x : Extraction) : Prop where
  names_eq : x.names = x.document.entries.keys
  entries_ne_nil : ∀ e ∈ x.document.entries.entries, e.2 ≠ []
  parents : ∀ e ∈ x.document.parents.entries, e.2 ≠ [] ∧ e.2.Nodup

/-- Names and tables begin in step. -/
theorem inStep_empty : empty.InStep :=
  ⟨rfl, by simp [empty, Document.empty], by simp [empty, Document.empty]⟩

/-- Each parent of a declaration goes to a list that is not empty and repeats nothing. -/
theorem parents_addParents {t : ParentTable} (h : ∀ e ∈ t.entries, e.2 ≠ [] ∧ e.2.Nodup)
    (d : Declaration) : ∀ e ∈ (addParents t d).entries, e.2 ≠ [] ∧ e.2.Nodup := by
  rw [addParents]
  generalize d.parents = parents
  induction parents generalizing t with
  | nil => exact h
  | cons parent parents ih =>
      rw [List.foldl_cons]
      refine ih (forall_upsertPair (P := fun ps : List String => ps ≠ [] ∧ ps.Nodup) h ?_ ?_)
      · exact ⟨addName_ne_nil [] parent, nodup_addName List.nodup_nil parent⟩
      · rintro ps ⟨-, hps⟩
        exact ⟨addName_ne_nil ps parent, nodup_addName hps parent⟩

/-- Taking in a declaration keeps the places in step, be it with members or without. -/
theorem InStep.add (h : x.InStep) (d : Declaration) : (x.add d).InStep := by
  have hparents := parents_addParents h.parents d
  rw [Extraction.add]
  by_cases hmembers : d.members = []
  · rw [if_pos (List.isEmpty_iff.mpr hmembers)]
    exact ⟨h.names_eq, h.entries_ne_nil, hparents⟩
  · rw [if_neg (by rwa [List.isEmpty_iff])]
    have hnew : d.members.map (Entry.ofMember d.name) ≠ [] := by
      rwa [ne_eq, List.map_eq_nil_iff]
    refine ⟨?_, ?_, hparents⟩
    · show (if x.document.entries.has d.name then x.names else x.names ++ [d.name])
        = (x.document.entries.upsert d.name _).keys
      rw [Keyed.keys_upsert, h.names_eq]
      simp only [Keyed.has_iff]
    · refine forall_upsertPair (P := fun es : List Entry => es ≠ []) h.entries_ne_nil hnew ?_
      intro es _
      exact List.append_ne_nil_of_right_ne_nil es hnew

/-- They stay in step, by induction on the declarations. -/
theorem inStep_ofDeclarations (ds : List Declaration) : (ofDeclarations ds).InStep := by
  suffices ∀ x : Extraction, x.InStep → (ds.foldl Extraction.add x).InStep from
    this empty inStep_empty
  induction ds with
  | nil => exact fun x hx => hx
  | cons d ds ih => exact fun x hx => ih (x.add d) (hx.add d)

/-- An interface has a place in the table exactly if it has entries. -/
theorem InStep.mem_keys_iff (h : x.InStep) :
    i ∈ x.document.entries.keys ↔ x.document.entries.entriesOf i ≠ [] := by
  rw [EntryTable.entriesOf]
  cases hget : x.document.entries.get? i with
  | none =>
      rw [Keyed.get?_eq_none_iff] at hget
      exact ⟨fun hmem => absurd hmem hget, fun hne => absurd rfl hne⟩
  | some es =>
      have hmem := (Keyed.get?_eq_some_iff _ _ _).mp hget
      exact ⟨fun _ => h.entries_ne_nil _ hmem, fun _ => List.mem_map_of_mem (f := Prod.fst) hmem⟩

/-! ## The headline -/

/-- An extraction follows declarations under some selections: its places are in step, it has
the interfaces with members that every selection has, and it records the members of these. -/
structure Follows (x : Extraction) (ds : List Declaration) (selections : List (List String)) :
    Prop extends x.InStep where
  nodup : x.names.Nodup
  /-- No selection, or an empty one, leaves out an interface with members. -/
  mem_names_iff : ∀ i, i ∈ x.names
    ↔ membersOf ds i ≠ [] ∧ ∀ selected ∈ selections, selected ≠ [] → i ∈ selected
  /-- The entries of an interface record the members that are declared for it one by one. -/
  recorded : ∀ e ∈ x.document.entries.entries,
    List.Forall₂ (fun m entry => Entry.Records entry e.1 m) (membersOf ds e.1) e.2

/-- What is recorded follows the declarations that were read. -/
theorem follows_ofDeclarations (ds : List Declaration) : (ofDeclarations ds).Follows ds [] := by
  have hstep := inStep_ofDeclarations ds
  refine ⟨hstep, ?_, ?_, ?_⟩
  · rw [hstep.names_eq]
    exact (ofDeclarations ds).document.entries.nodup
  · intro i
    rw [hstep.names_eq, hstep.mem_keys_iff, entriesOf_ofDeclarations, ne_eq, List.map_eq_nil_iff]
    simp
  · intro e he
    rw [eq_map_of_mem_entries he, List.forall₂_map_right_iff, List.forall₂_same]
    exact fun m _ => Entry.records_ofMember e.1 m

/-- Merging the declarations first makes no difference to what an extraction follows. -/
theorem Follows.of_mergeDeclarations {selections : List (List String)}
    (h : x.Follows (mergeDeclarations ds) selections) : x.Follows ds selections := by
  refine ⟨h.toInStep, h.nodup, ?_, ?_⟩
  · intro i
    rw [h.mem_names_iff, membersOf_mergeDeclarations]
  · intro e he
    rw [← membersOf_mergeDeclarations]
    exact h.recorded e he

/-- One more restriction, one more selection. -/
theorem Follows.restrict {selections : List (List String)} (h : x.Follows ds selections)
    (selected : List String) :
    (x.restrict selected).Follows ds (selections ++ [selected]) := by
  have hselections : ∀ i, (∀ s ∈ selections ++ [selected], s ≠ [] → i ∈ s)
      ↔ (∀ s ∈ selections, s ≠ [] → i ∈ s) ∧ (selected ≠ [] → i ∈ selected) := by
    intro i
    rw [List.forall_mem_append, List.forall_mem_singleton]
  -- An empty selection selects everything, so it neither filters nor counts among the conditions.
  by_cases hempty : selected = []
  · subst hempty
    rw [restrict_nil]
    refine ⟨h.toInStep, h.nodup, ?_, h.recorded⟩
    intro i
    rw [hselections, h.mem_names_iff]
    simp
  · rw [restrict_of_ne_nil x hempty]
    refine ⟨⟨?_, ?_, ?_⟩, h.nodup.filter _, ?_, ?_⟩
    · rw [Keyed.keys_keep, h.names_eq]
    · exact fun e he => h.entries_ne_nil e (List.mem_filter.mp he).1
    · exact fun e he => h.parents e (List.mem_filter.mp he).1
    · intro i
      rw [List.mem_filter, List.contains_iff_mem, h.mem_names_iff, hselections, and_assoc]
      exact and_congr_right fun _ => and_congr_right fun _ =>
        ⟨fun hi _ => hi, fun hi => hi hempty⟩
    · exact fun e he => h.recorded e (List.mem_filter.mp he).1

/-- Restrictions one after the other. -/
def restrictAll (x : Extraction) (selections : List (List String)) : Extraction :=
  selections.foldl restrict x

/-- It still does after any restrictions, by induction on them. -/
theorem Follows.restrictAll (h : x.Follows ds []) (selections : List (List String)) :
    (x.restrictAll selections).Follows ds selections := by
  induction selections using List.reverseRecOn with
  | nil => exact h
  | append_singleton selections selected ih =>
      rw [Extraction.restrictAll, List.foldl_concat]
      exact ih.restrict selected

/-- **EXTRACTION**: what is extracted from declarations, as they are or merged, and restricted
any number of times, follows the declarations under the selections. -/
theorem follows_restrictAll (ds : List Declaration) (selections : List (List String)) :
    ((ofDeclarations ds).restrictAll selections).Follows ds selections
      ∧ ((ofDeclarations (mergeDeclarations ds)).restrictAll selections).Follows ds selections :=
  ⟨(follows_ofDeclarations ds).restrictAll selections,
    (follows_ofDeclarations (mergeDeclarations ds)).of_mergeDeclarations.restrictAll selections⟩

end Extraction

end Bindery
