import Bindery.Proofs.Declaration.Merge

/-!
# Merging in parts

What merging makes of the declarations of an interface depends on these declarations only
(`mergeDeclarations_eq_map`): it is the declaration `together`, with all of their members, and with
the parents of the first one and those that the later ones add.

The first declaration is treated unlike the later ones: it keeps its repeated parents.  So when
declarations are merged in parts, the first one of a later part is treated in one way when its part
is merged, and in the other when the parts are.  Nothing comes of it, since repetitions that are
kept in the part are dropped behind the parents that are there already
(`foldl_addName_parentsMerged`).  Hence declarations may be merged in parts first
(`mergeDeclarations_parts`), and merged declarations stay as they are.  The headline is
`mergeDeclarations_inParts`.
-/

namespace Bindery

variable {ds : List Declaration} {d : Declaration} {name : String}

/-! ## Parents of joined declarations -/

/-- Parents of merged declarations come to the same as the parents of the declarations when they
are added to others. -/
theorem foldl_addName_parentsMerged (names : List String) (xs : List Declaration) :
    (parentsMerged xs).foldl addName names
      = (xs.flatMap Declaration.parents).foldl addName names := by
  cases xs with
  | nil => rfl
  | cons first later => rw [parentsMerged_cons, foldl_addName_foldl, List.flatMap_cons]

/-- The parents of further declarations are added to those of the first ones.  There has to be a
first one, whose parents are kept as listed. -/
theorem parentsMerged_append {xs : List Declaration} (hne : xs ≠ []) (ys : List Declaration) :
    parentsMerged (xs ++ ys)
      = (ys.flatMap Declaration.parents).foldl addName (parentsMerged xs) := by
  cases xs with
  | nil => exact absurd rfl hne
  | cons first later =>
      rw [List.cons_append, parentsMerged_cons, parentsMerged_cons, List.flatMap_append,
        List.foldl_append]

/-- A declaration alone keeps its parents, repeated ones included. -/
theorem parentsMerged_singleton (d : Declaration) : parentsMerged [d] = d.parents := by
  rw [parentsMerged_cons]
  rfl

/-! ## From the list -/

/-- A merged declaration is made of all declarations of its name. -/
theorem eq_together_of_mem (h : d ∈ mergeDeclarations ds) : d = together ds d.name := by
  obtain ⟨e, he, rfl⟩ := List.mem_map.mp h
  have hname := names_foldl_mergeStep_empty ds e he
  have hget := (Keyed.get?_eq_some_iff _ _ _).mpr he
  rw [get?_merged] at hget
  split at hget
  · cases hget
  · rw [hname]
    exact (Option.some.inj hget).symm

/-- **MERGING, TOLD FROM THE LIST**: each name that is declared gets one declaration, in the order
in which the names first come up. -/
theorem mergeDeclarations_eq_map (ds : List Declaration) :
    mergeDeclarations ds = (distinct (ds.map Declaration.name)).map (together ds) := by
  have hnames : (mergeDeclarations ds).map Declaration.name
      = distinct (ds.map Declaration.name) := by
    rw [names_mergeDeclarations, firstNames, distinct_eq_foldl]
  rw [← hnames, List.map_map]
  conv_lhs => rw [← List.map_id (mergeDeclarations ds)]
  exact List.map_congr_left fun d hd => eq_together_of_mem hd

/-! ## Nothing is lost -/

/-- A declaration brings its members into the table, and leaves those that are there. -/
theorem perm_mergeStep (t : Keyed Declaration) (d : Declaration) :
    ((mergeStep t d).entries.flatMap fun e => e.2.members).Perm
      ((t.entries.flatMap fun e => e.2.members) ++ d.members) := by
  rw [mergeStep, Keyed.entries_upsert]
  induction t.entries with
  | nil => simp [upsertPair]
  | cons e rest ih =>
      rw [upsertPair]
      by_cases h : e.1 = d.name
      · rw [if_pos h, List.flatMap_cons, List.flatMap_cons, List.append_assoc]
        show ((e.2.members ++ d.members) ++ _).Perm _
        rw [List.append_assoc]
        exact List.perm_append_comm.append_left _
      · rw [if_neg h, List.flatMap_cons, List.flatMap_cons, List.append_assoc]
        exact ih.append_left _

/-- Each member goes into the table once, by induction on the declarations. -/
theorem perm_foldl_mergeStep (ds : List Declaration) (t : Keyed Declaration) :
    ((ds.foldl mergeStep t).entries.flatMap fun e => e.2.members).Perm
      ((t.entries.flatMap fun e => e.2.members) ++ ds.flatMap Declaration.members) := by
  induction ds generalizing t with
  | nil => simp
  | cons d ds ih =>
      rw [List.foldl_cons, List.flatMap_cons, ← List.append_assoc]
      exact (ih (mergeStep t d)).trans ((perm_mergeStep t d).append_right _)

/-- **NOTHING IS LOST** and nothing comes twice: merged declarations have the members that the
declarations have, each as often. -/
theorem perm_members_mergeDeclarations (ds : List Declaration) :
    ((mergeDeclarations ds).flatMap Declaration.members).Perm (ds.flatMap Declaration.members) := by
  rw [mergeDeclarations, List.flatMap_map]
  exact perm_foldl_mergeStep ds Keyed.empty

/-! ## Parts -/

/-- What is declared is declared by the merged declarations. -/
theorem declarationsOf_mergeDeclarations_eq_nil_iff :
    declarationsOf (mergeDeclarations ds) name = [] ↔ declarationsOf ds name = [] := by
  rw [declarationsOf_mergeDeclarations]
  split
  · next h => exact iff_of_true rfl h
  · next h => exact iff_of_false (List.cons_ne_nil _ _) h

/-- Merging leaves the parents of a name as they are merged already. -/
theorem parentsMerged_mergeDeclarations (ds : List Declaration) (name : String) :
    parentsMerged (declarationsOf (mergeDeclarations ds) name)
      = parentsMerged (declarationsOf ds name) := by
  rw [declarationsOf_mergeDeclarations]
  split
  · next h => rw [h]
  · exact parentsMerged_singleton _

/-- The parents of an interface are the same if its declarations are merged in two parts first. -/
theorem parentsMerged_parts (ds more : List Declaration) (name : String) :
    parentsMerged (declarationsOf (mergeDeclarations ds ++ mergeDeclarations more) name)
      = parentsMerged (declarationsOf (ds ++ more) name) := by
  rw [declarationsOf_append, declarationsOf_append]
  by_cases h : declarationsOf ds name = []
  · rw [h, declarationsOf_mergeDeclarations_eq_nil_iff.mpr h, List.nil_append, List.nil_append,
      parentsMerged_mergeDeclarations]
  · have hmerged : declarationsOf (mergeDeclarations ds) name ≠ [] := by
      intro hnil
      exact h (declarationsOf_mergeDeclarations_eq_nil_iff.mp hnil)
    -- the first declaration of the later part counts as a later one on both sides
    rw [parentsMerged_append hmerged, parentsMerged_append h, parentsMerged_mergeDeclarations,
      ← foldl_addName_parentsMerged, parentsMerged_mergeDeclarations, foldl_addName_parentsMerged]

/-- Parts that are merged by themselves give the same for a name as all of them. -/
theorem together_parts (ds more : List Declaration) (name : String) :
    together (mergeDeclarations ds ++ mergeDeclarations more) name
      = together (ds ++ more) name := by
  rw [together, together, parentsMerged_parts, membersOf_append, membersOf_append,
    membersOf_mergeDeclarations, membersOf_mergeDeclarations]

/-- And their names first occur in the same order. -/
theorem distinct_names_parts (ds more : List Declaration) :
    distinct ((mergeDeclarations ds ++ mergeDeclarations more).map Declaration.name)
      = distinct ((ds ++ more).map Declaration.name) := by
  rw [List.map_append, List.map_append, names_mergeDeclarations, names_mergeDeclarations,
    distinct_eq_foldl, distinct_eq_foldl, List.foldl_append, List.foldl_append, firstNames,
    firstNames, foldl_addName_foldl, foldl_addName_foldl, List.nil_append, List.nil_append]

/-- Declarations may be merged in two parts first. -/
theorem mergeDeclarations_parts (ds more : List Declaration) :
    mergeDeclarations (mergeDeclarations ds ++ mergeDeclarations more)
      = mergeDeclarations (ds ++ more) := by
  rw [mergeDeclarations_eq_map, mergeDeclarations_eq_map (ds ++ more), distinct_names_parts]
  exact List.map_congr_left fun name _ => together_parts ds more name

/-- **MERGING IN PARTS**: merging makes one declaration of all declarations of a name, in the order
in which names first come up, and no member is lost or doubled.  Merged declarations stay as they
are, and declarations may be merged in parts. -/
theorem mergeDeclarations_inParts (ds : List Declaration) :
    mergeDeclarations ds = (distinct (ds.map Declaration.name)).map (together ds)
      ∧ ((mergeDeclarations ds).flatMap Declaration.members).Perm (ds.flatMap Declaration.members)
      ∧ mergeDeclarations (mergeDeclarations ds) = mergeDeclarations ds
      ∧ ∀ more, mergeDeclarations (ds ++ more)
          = mergeDeclarations (mergeDeclarations ds ++ mergeDeclarations more) := by
  refine ⟨mergeDeclarations_eq_map ds, perm_members_mergeDeclarations ds, ?_, ?_⟩
  · have hempty : mergeDeclarations ds ++ mergeDeclarations [] = mergeDeclarations ds :=
      List.append_nil _
    calc mergeDeclarations (mergeDeclarations ds)
        = mergeDeclarations (mergeDeclarations ds ++ mergeDeclarations []) := by rw [hempty]
      _ = mergeDeclarations (ds ++ []) := mergeDeclarations_parts ds []
      _ = mergeDeclarations ds := by rw [List.append_nil]
  · intro more
    exact (mergeDeclarations_parts ds more).symm

end Bindery
