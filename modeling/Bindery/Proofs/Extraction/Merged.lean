import Bindery.Proofs.Extraction.Recorded

/-!
# Merging before extraction

Declarations of one interface are brought together twice: merging makes one declaration of
them, and extraction takes in declarations as they come and adds to what it has.  The two treat
repeated parents differently.  Merging keeps those of the first declaration as they are, and
extraction records each parent once.

Merging first is seen in no look-up all the same.  For entries this rests on the members of an
interface, which merging keeps; for parents on the state that recording leaves behind, in which a
parent that was dropped as a repetition is there already (`foldl_takeParent_addName`).

The order of interfaces is another matter.  A merged declaration stands where the first one of
its name stood, while extraction gives an interface its place when the first members come.  The
places are the same if these come in the first declaration (`names_of_membersComeFirst`).  The
headline is `merging_first_agrees`.
-/

namespace Bindery

variable {ds : List Declaration} {d : Declaration} {i : String}

/-- Whether each name that has a member in some declaration has one in its first declaration. -/
def MembersComeFirst (ds : List Declaration) : Prop :=
  ∀ d ∈ ds, d.members ≠ [] → ∀ first ∈ ds.find? (fun e => e.name == d.name), first.members ≠ []

instance : Decidable (MembersComeFirst ds) :=
  inferInstanceAs (Decidable (∀ d ∈ ds, d.members ≠ [] →
    ∀ first ∈ ds.find? (fun e => e.name == d.name), first.members ≠ []))

namespace Extraction

/-! ## Recording parents -/

/-- What stands under a name after one more parent. -/
def takeParent (old : Option (List String)) (parent : String) : Option (List String) :=
  some (addName (old.getD []) parent)

/-- A parent that was recorded is there. -/
theorem mem_foldl_takeParent {old : Option (List String)} {parents : List String} {p : String}
    (h : p ∈ parents ∨ p ∈ old.getD []) : p ∈ (parents.foldl takeParent old).getD [] := by
  induction parents generalizing old with
  | nil => exact h.resolve_left List.not_mem_nil
  | cons q parents ih =>
      refine ih ?_
      rw [takeParent, Option.getD_some, mem_addName_iff]
      rcases h with hmem | hold
      · rcases List.mem_cons.mp hmem with rfl | hrest
        · exact Or.inr (Or.inr rfl)
        · exact Or.inl hrest
      · exact Or.inr (Or.inl hold)

/-- Something stands under a name to which parents were recorded. -/
theorem foldl_takeParent_eq_some {old : Option (List String)} {parents : List String}
    (h : parents ≠ []) :
    parents.foldl takeParent old = some ((parents.foldl takeParent old).getD []) := by
  obtain ⟨front, last, rfl⟩ := (List.eq_nil_or_concat parents).resolve_left h
  rw [List.concat_eq_append, List.foldl_append]
  rfl

/-- It makes no difference whether a repetition is dropped before recording or by it. -/
theorem foldl_takeParent_addName (old : Option (List String)) (parents : List String)
    (p : String) :
    (addName parents p).foldl takeParent old = takeParent (parents.foldl takeParent old) p := by
  by_cases h : p ∈ parents
  · rw [addName_of_mem h, takeParent, addName_of_mem (mem_foldl_takeParent (Or.inl h))]
    exact foldl_takeParent_eq_some (List.ne_nil_of_mem h)
  · rw [addName_of_notMem h, List.foldl_append]
    rfl

/-- Parents that are first put together are taken like all of them in turn. -/
theorem foldl_takeParent_foldl (old : Option (List String)) (parents more : List String) :
    (more.foldl addName parents).foldl takeParent old
      = more.foldl takeParent (parents.foldl takeParent old) := by
  induction more generalizing parents with
  | nil => rfl
  | cons p more ih => rw [List.foldl_cons, ih, foldl_takeParent_addName, List.foldl_cons]

/-- A declaration records its parents under its name. -/
theorem get?_addParents (t : ParentTable) (d : Declaration) (i : String) :
    (addParents t d).get? i
      = (if d.name = i then d.parents else []).foldl takeParent (t.get? i) := by
  rw [addParents]
  generalize d.parents = parents
  induction parents generalizing t with
  | nil => rw [ite_self, List.foldl_nil, List.foldl_nil]
  | cons p parents ih =>
      rw [List.foldl_cons, ih, ParentTable.add, Keyed.get?_upsert]
      by_cases h : d.name = i
      · rw [if_pos h, if_pos h, if_pos h.symm, h, List.foldl_cons]
        rfl
      · rw [if_neg h, if_neg h, if_neg fun heq => h heq.symm]

/-- Parents are recorded with members or without. -/
theorem parents_add (x : Extraction) (d : Declaration) :
    (x.add d).document.parents = addParents x.document.parents d := by
  rw [add]
  split <;> rfl

/-- The parents of a name are those that its declarations list, in the order of the
declarations. -/
theorem get?_parents_foldl_add (ds : List Declaration) (x : Extraction) (i : String) :
    (ds.foldl add x).document.parents.get? i
      = (parentsListed ds i).foldl takeParent (x.document.parents.get? i) := by
  induction ds generalizing x with
  | nil => rfl
  | cons d ds ih =>
      rw [List.foldl_cons, ih, parents_add, get?_addParents, parentsListed_cons, List.foldl_append]

/-- Under a name stands what its declarations list, each parent once. -/
theorem get?_parents_ofDeclarations (ds : List Declaration) (i : String) :
    (ofDeclarations ds).document.parents.get? i = (parentsListed ds i).foldl takeParent none :=
  get?_parents_foldl_add ds empty i

/-- Merging drops repetitions from later declarations, recording from all of them. -/
theorem foldl_takeParent_parentsMerged (xs : List Declaration) :
    (parentsMerged xs).foldl takeParent none
      = (xs.flatMap Declaration.parents).foldl takeParent none := by
  cases xs with
  | nil => rfl
  | cons first later =>
      rw [parentsMerged_cons, foldl_takeParent_foldl, List.flatMap_cons, List.foldl_append]

/-- Merging first leads to the same parents of each name. -/
theorem get?_parents_mergeDeclarations (ds : List Declaration) (i : String) :
    (ofDeclarations (mergeDeclarations ds)).document.parents.get? i
      = (ofDeclarations ds).document.parents.get? i := by
  rw [get?_parents_ofDeclarations, get?_parents_ofDeclarations, parentsListed_mergeDeclarations,
    foldl_takeParent_parentsMerged, parentsListed_eq]

/-! ## Entries -/

/-- What is found under an interface, from the entries that it has. -/
theorem InStep.get?_entries {x : Extraction} (h : x.InStep) (i : String) :
    x.document.entries.get? i
      = if x.document.entries.entriesOf i = [] then none
        else some (x.document.entries.entriesOf i) := by
  rw [EntryTable.entriesOf]
  cases hget : x.document.entries.get? i with
  | none => rw [Option.getD_none, if_pos rfl]
  | some es =>
      rw [Option.getD_some, if_neg (h.entries_ne_nil _ ((Keyed.get?_eq_some_iff _ _ _).mp hget))]

/-- It leads to the same entries of each name. -/
theorem get?_entries_mergeDeclarations (ds : List Declaration) (i : String) :
    (ofDeclarations (mergeDeclarations ds)).document.entries.get? i
      = (ofDeclarations ds).document.entries.get? i := by
  rw [(inStep_ofDeclarations _).get?_entries, (inStep_ofDeclarations _).get?_entries,
    entriesOf_ofDeclarations, entriesOf_ofDeclarations, membersOf_mergeDeclarations]

/-! ## The order of interfaces -/

theorem mem_firstNames_iff : i ∈ firstNames ds ↔ i ∈ ds.map Declaration.name := by
  rw [firstNames, mem_foldl_addName_iff, or_iff_right List.not_mem_nil]

/-- A further declaration adds its name, if it is new. -/
theorem firstNames_append (ds : List Declaration) (d : Declaration) :
    firstNames (ds ++ [d]) = addName (firstNames ds) d.name := by
  rw [firstNames, List.map_append, List.foldl_append]
  rfl

theorem membersOf_append_singleton (ds : List Declaration) (d : Declaration) (i : String) :
    membersOf (ds ++ [d]) i = membersOf ds i ++ if d.name = i then d.members else [] := by
  rw [membersOf_append, membersOf_cons]
  exact congrArg (membersOf ds i ++ ·) (List.append_nil _)

/-- A name with a member came up. -/
theorem mem_firstNames_of_membersOf (h : membersOf ds i ≠ []) : i ∈ firstNames ds := by
  obtain ⟨m, hm⟩ := List.exists_mem_of_ne_nil _ h
  obtain ⟨d, hd, hname, -⟩ := mem_membersOf.mp hm
  exact mem_firstNames_iff.mpr (List.mem_map.mpr ⟨d, hd, hname⟩)

/-- A name has the members of its first declaration. -/
theorem membersOf_ne_nil_of_find? {first : Declaration}
    (h : ds.find? (fun d => d.name == i) = some first) (hmembers : first.members ≠ []) :
    membersOf ds i ≠ [] := by
  have hname := List.find?_some h
  obtain ⟨m, hm⟩ := List.exists_mem_of_ne_nil _ hmembers
  exact List.ne_nil_of_mem
    (mem_membersOf.mpr ⟨first, List.mem_of_find?_eq_some h, beq_iff_eq.mp hname, hm⟩)

/-- Members come first in what stands in front as well. -/
theorem membersComeFirst_of_append (h : MembersComeFirst (ds ++ [d])) : MembersComeFirst ds := by
  intro e he hmembers first hfirst
  refine h e (List.mem_append_left _ he) hmembers first ?_
  rw [List.find?_append, Option.mem_def.mp hfirst]
  rfl

/-- A name that came up before one of its declarations with members has members already. -/
theorem membersOf_ne_nil_of_membersComeFirst (h : MembersComeFirst (ds ++ [d]))
    (hmembers : d.members ≠ []) (hname : d.name ∈ firstNames ds) : membersOf ds d.name ≠ [] := by
  obtain ⟨e, he, heq⟩ := List.mem_map.mp (mem_firstNames_iff.mp hname)
  obtain ⟨first, hfirst⟩ : ∃ first, ds.find? (fun e => e.name == d.name) = some first :=
    Option.isSome_iff_exists.mp (List.find?_isSome.mpr ⟨e, he, beq_iff_eq.mpr heq⟩)
  refine membersOf_ne_nil_of_find? hfirst (h d List.mem_concat_self hmembers first ?_)
  rw [List.find?_append, hfirst]
  rfl

/-- The names that have members, in order of first appearance. -/
def namesWithMembers (ds : List Declaration) : List String :=
  (firstNames ds).filter fun i => decide (membersOf ds i ≠ [])

/-- A declaration without members gives no name members. -/
theorem namesWithMembers_append_of_nil (h : d.members = []) :
    namesWithMembers (ds ++ [d]) = namesWithMembers ds := by
  have hsame : ∀ i, membersOf (ds ++ [d]) i = membersOf ds i := by
    intro i
    rw [membersOf_append_singleton, h, ite_self, List.append_nil]
  simp only [namesWithMembers, firstNames_append, hsame]
  by_cases hname : d.name ∈ firstNames ds
  · rw [addName_of_mem hname]
  · have hnone : ¬ decide (membersOf ds d.name ≠ []) = true := by
      intro hne
      exact hname (mem_firstNames_of_membersOf (of_decide_eq_true hne))
    rw [addName_of_notMem hname, List.filter_append, List.filter_cons, if_neg hnone,
      List.filter_nil, List.append_nil]

/-- A declaration with members adds its name, unless it came up without members. -/
theorem namesWithMembers_append_of_ne_nil (h : d.members ≠ [])
    (hbefore : d.name ∈ firstNames ds → membersOf ds d.name ≠ []) :
    namesWithMembers (ds ++ [d]) = addName (namesWithMembers ds) d.name := by
  have hmember : decide (membersOf (ds ++ [d]) d.name ≠ []) = true := by
    rw [membersOf_append_singleton, if_pos rfl]
    exact decide_eq_true (List.append_ne_nil_of_right_ne_nil _ h)
  -- only the members of the name at hand have grown
  have hother : ∀ i, i ≠ d.name → membersOf (ds ++ [d]) i = membersOf ds i := by
    intro i hne
    rw [membersOf_append_singleton, if_neg fun heq => hne heq.symm, List.append_nil]
  rw [namesWithMembers, firstNames_append]
  by_cases hname : d.name ∈ firstNames ds
  · have hmem : d.name ∈ namesWithMembers ds :=
      List.mem_filter.mpr ⟨hname, decide_eq_true (hbefore hname)⟩
    rw [addName_of_mem hname, addName_of_mem hmem, namesWithMembers]
    refine List.filter_congr fun i _ => ?_
    by_cases hne : i = d.name
    · rw [hne, hmember, decide_eq_true (hbefore hname)]
    · rw [hother i hne]
  · have hnew : d.name ∉ namesWithMembers ds := fun hmem => hname (List.mem_filter.mp hmem).1
    rw [addName_of_notMem hname, addName_of_notMem hnew, List.filter_append,
      List.filter_cons, if_pos hmember, List.filter_nil, namesWithMembers]
    refine congrArg (· ++ [d.name]) (List.filter_congr fun i hi => ?_)
    rw [hother i fun heq => hname (heq ▸ hi)]

/-- It adds a name to the extraction only if it has members. -/
theorem names_ofDeclarations_append (ds : List Declaration) (d : Declaration) :
    (ofDeclarations (ds ++ [d])).names
      = if d.members = [] then (ofDeclarations ds).names
        else addName (ofDeclarations ds).names d.name := by
  rw [ofDeclarations, List.foldl_append, List.foldl_cons, List.foldl_nil, add, ← ofDeclarations]
  by_cases h : d.members = []
  · rw [if_pos h, if_pos (List.isEmpty_iff.mpr h)]
  · rw [if_neg h, if_neg (by rwa [List.isEmpty_iff])]
    -- the table is asked, which is in step with the names
    show (if (ofDeclarations ds).document.entries.has d.name then (ofDeclarations ds).names
      else (ofDeclarations ds).names ++ [d.name]) = _
    rw [addName, (inStep_ofDeclarations ds).names_eq]
    simp only [Keyed.has_iff, List.contains_iff_mem]

/-- **PLACES**: where members come in the first declaration of a name, the interfaces stand as
their names first come up. -/
theorem names_of_membersComeFirst (h : MembersComeFirst ds) :
    (ofDeclarations ds).names = namesWithMembers ds := by
  -- from the end, so that what was taken in so far is an extraction of declarations again
  induction ds using List.reverseRecOn with
  | nil => rfl
  | append_singleton ds d ih =>
      rw [names_ofDeclarations_append, ih (membersComeFirst_of_append h)]
      by_cases hmembers : d.members = []
      · rw [if_pos hmembers, namesWithMembers_append_of_nil hmembers]
      · rw [if_neg hmembers, namesWithMembers_append_of_ne_nil hmembers
          (membersOf_ne_nil_of_membersComeFirst h hmembers)]

/-- In merged declarations members come first, since no name comes twice. -/
theorem membersComeFirst_mergeDeclarations (ds : List Declaration) :
    MembersComeFirst (mergeDeclarations ds) := by
  intro d hd hmembers first hfirst
  have hnodup : ((mergeDeclarations ds).map Declaration.name).Nodup := by
    rw [names_mergeDeclarations]
    exact nodup_foldl_addName List.nodup_nil _
  have hname := List.find?_some (Option.mem_def.mp hfirst)
  have hsame : first = d := List.inj_on_of_nodup_map hnodup
    (List.mem_of_find?_eq_some (Option.mem_def.mp hfirst)) hd (beq_iff_eq.mp hname)
  rwa [hsame]

/-- Merging keeps the order in which names first occur. -/
theorem firstNames_mergeDeclarations (ds : List Declaration) :
    firstNames (mergeDeclarations ds) = firstNames ds := by
  have hnodup : (firstNames ds).Nodup := nodup_foldl_addName List.nodup_nil _
  rw [firstNames, names_mergeDeclarations]
  exact foldl_addName_of_nodup hnodup

/-- So it keeps the names of the extraction, if every name has its members first. -/
theorem names_mergeDeclarations_eq (h : MembersComeFirst ds) :
    (ofDeclarations (mergeDeclarations ds)).names = (ofDeclarations ds).names := by
  rw [names_of_membersComeFirst h]
  rw [names_of_membersComeFirst (membersComeFirst_mergeDeclarations ds)]
  rw [namesWithMembers, firstNames_mergeDeclarations, namesWithMembers]
  refine List.filter_congr fun i _ => ?_
  rw [membersOf_mergeDeclarations]

/-! ## The headline -/

/-- No look-up tells two extractions apart. -/
structure LooksLike (x y : Extraction) : Prop where
  /-- The interfaces are the same. -/
  interfaces : ∀ i, i ∈ x.document.entries.keys ↔ i ∈ y.document.entries.keys
  /-- Each has the same entries in the same order. -/
  entries : ∀ i, x.document.entries.get? i = y.document.entries.get? i
  /-- Each has the same parents in the same order. -/
  parents : ∀ i, x.document.parents.get? i = y.document.parents.get? i
  /-- The same names are listed. -/
  names : ∀ i, i ∈ x.names ↔ i ∈ y.names

/-- **MERGING FIRST**: whether declarations are merged before extraction is seen in no look-up,
and not in the order of interfaces either if members come in the first declaration of a name. -/
theorem merging_first_agrees (ds : List Declaration) :
    (ofDeclarations (mergeDeclarations ds)).LooksLike (ofDeclarations ds)
      ∧ (MembersComeFirst ds →
          (ofDeclarations (mergeDeclarations ds)).document.entries.keys
              = (ofDeclarations ds).document.entries.keys
            ∧ (ofDeclarations (mergeDeclarations ds)).names = (ofDeclarations ds).names) := by
  have hmerged := inStep_ofDeclarations (mergeDeclarations ds)
  have hplain := inStep_ofDeclarations ds
  have hinterfaces : ∀ i, i ∈ (ofDeclarations (mergeDeclarations ds)).document.entries.keys
      ↔ i ∈ (ofDeclarations ds).document.entries.keys := by
    intro i
    rw [hmerged.mem_keys_iff, hplain.mem_keys_iff, entriesOf_ofDeclarations,
      entriesOf_ofDeclarations, membersOf_mergeDeclarations]
  refine ⟨⟨hinterfaces, get?_entries_mergeDeclarations ds, get?_parents_mergeDeclarations ds, ?_⟩,
    ?_⟩
  · intro i
    rw [hmerged.names_eq, hplain.names_eq]
    exact hinterfaces i
  · intro h
    have hnames := names_mergeDeclarations_eq h
    rw [← hmerged.names_eq, ← hplain.names_eq]
    exact ⟨hnames, hnames⟩

/-- Nodes and elements, each declared twice; the first declaration of elements repeats a parent
that the second one names again. -/
def repeatedly : List Declaration :=
  [⟨"Element", ["Node", "Node"], [.property ⟨"id", "string", false, false, none⟩]⟩,
   ⟨"Range", ["Node"], []⟩,
   ⟨"Node", [], [.property ⟨"nodeName", "string", false, true, none⟩]⟩,
   ⟨"Element", ["ParentNode", "Node"], [.method ⟨"remove", [], "void", none, none⟩]⟩,
   ⟨"Node", ["EventTarget"], []⟩]

/-- Nodes and elements that are declared twice, with parents listed twice: merged first or not,
the look-ups agree, and so do the names, for the members come first. -/
theorem merging_first_agrees_repeatedly :
    MembersComeFirst repeatedly
      ∧ (ofDeclarations (mergeDeclarations repeatedly)).LooksLike (ofDeclarations repeatedly)
      ∧ (ofDeclarations (mergeDeclarations repeatedly)).names = ["Element", "Node"]
      ∧ (ofDeclarations repeatedly).names = ["Element", "Node"]
      ∧ (ofDeclarations repeatedly).document.parents.get? "Element"
        = some ["Node", "ParentNode"] := by
  have hfirst : MembersComeFirst repeatedly := by decide +kernel
  have hplain : (ofDeclarations repeatedly).names = ["Element", "Node"] := by decide +kernel
  obtain ⟨hlooks, hplaces⟩ := merging_first_agrees repeatedly
  refine ⟨hfirst, hlooks, ?_, hplain, by decide +kernel⟩
  rw [(hplaces hfirst).2, hplain]

/-- Merging gives an interface the place of a declaration without members. -/
example : (ofDeclarations (mergeDeclarations (⟨"Node", [], []⟩ :: repeatedly))).names
      = ["Node", "Element"]
    ∧ (ofDeclarations (⟨"Node", [], []⟩ :: repeatedly)).names = ["Element", "Node"] := by
  decide +kernel

end Extraction

end Bindery
