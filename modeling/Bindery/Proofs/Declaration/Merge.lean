import Bindery.Declaration.Merge
import Bindery.Proofs.Distinct
import Bindery.Proofs.Keyed

/-!
# What stands in merged declarations

Under a name merging takes in the declarations of that name only, one after the other
(`get?_foldl_mergeStep`), and in the end one declaration stands there, that of all of them
`together`.  What merged declarations have is read off from it: the members that the
declarations give to an interface, in the same order (`membersOf_mergeDeclarations`), and the
parents of the first declaration with those that the later ones add
(`parentsListed_mergeDeclarations`).

Merged declarations have distinct names, in the order in which these first come up
(`names_mergeDeclarations`).
-/

namespace Bindery

variable {t : Keyed Declaration} {d : Declaration} {ds : List Declaration} {name : String}

/-! ## The declarations of one interface -/

/-- The declarations of an interface, in order. -/
def declarationsOf (ds : List Declaration) (name : String) : List Declaration :=
  ds.filter fun d => d.name == name

theorem declarationsOf_cons (d : Declaration) (ds : List Declaration) (name : String) :
    declarationsOf (d :: ds) name
      = (if d.name = name then [d] else []) ++ declarationsOf ds name := by
  rw [declarationsOf, List.filter_cons]
  by_cases h : d.name = name
  · rw [if_pos h, if_pos (beq_iff_eq.mpr h)]
    rfl
  · rw [if_neg h, if_neg (by simpa using h)]
    rfl

theorem declarationsOf_append (ds more : List Declaration) (name : String) :
    declarationsOf (ds ++ more) name = declarationsOf ds name ++ declarationsOf more name :=
  List.filter_append _ _

/-- The declarations of a name are those among all that have it. -/
theorem mem_declarationsOf : d ∈ declarationsOf ds name ↔ d ∈ ds ∧ d.name = name := by
  rw [declarationsOf, List.mem_filter, beq_iff_eq]

/-- The members that declarations give to an interface, in order. -/
def membersOf (ds : List Declaration) (name : String) : List Member :=
  (ds.filter fun d => d.name == name).flatMap Declaration.members

/-- The members of a name are gone through declaration by declaration. -/
theorem membersOf_eq (ds : List Declaration) (name : String) :
    membersOf ds name = (declarationsOf ds name).flatMap Declaration.members := rfl

theorem membersOf_cons (d : Declaration) (ds : List Declaration) (name : String) :
    membersOf (d :: ds) name
      = (if d.name = name then d.members else []) ++ membersOf ds name := by
  rw [membersOf_eq, declarationsOf_cons, List.flatMap_append, ← membersOf_eq]
  split <;> simp

theorem membersOf_append (ds more : List Declaration) (name : String) :
    membersOf (ds ++ more) name = membersOf ds name ++ membersOf more name := by
  rw [membersOf_eq, declarationsOf_append, List.flatMap_append, membersOf_eq, membersOf_eq]

/-- An interface has the members of each of its declarations, and no others. -/
theorem mem_membersOf {m : Member} :
    m ∈ membersOf ds name ↔ ∃ d ∈ ds, d.name = name ∧ m ∈ d.members := by
  simp only [membersOf_eq, List.mem_flatMap, mem_declarationsOf, and_assoc]

/-- The parents that declarations give to an interface, in order and with repetitions. -/
def parentsListed (ds : List Declaration) (name : String) : List String :=
  (ds.filter fun d => d.name == name).flatMap Declaration.parents

/-- So are its parents, with those that are listed twice. -/
theorem parentsListed_eq (ds : List Declaration) (name : String) :
    parentsListed ds name = (declarationsOf ds name).flatMap Declaration.parents := rfl

theorem parentsListed_cons (d : Declaration) (ds : List Declaration) (name : String) :
    parentsListed (d :: ds) name
      = (if d.name = name then d.parents else []) ++ parentsListed ds name := by
  rw [parentsListed_eq, declarationsOf_cons, List.flatMap_append, ← parentsListed_eq]
  split <;> simp

/-- The parents of merged declarations: those of the first one as they are, and behind them those
of the later ones that are not listed yet. -/
def parentsMerged : List Declaration → List String
  | [] => []
  | first :: later =>
      first.parents ++ firstsBeside id first.parents (later.flatMap Declaration.parents)

/-- The parents of the first declaration stand as they are, and those of later ones are added
unless they are there. -/
theorem parentsMerged_cons (first : Declaration) (later : List Declaration) :
    parentsMerged (first :: later)
      = (later.flatMap Declaration.parents).foldl addName first.parents :=
  (foldl_addName_eq _ _).symm

/-- One declaration for all declarations of an interface. -/
def together (ds : List Declaration) (name : String) : Declaration :=
  { name := name
    parents := parentsMerged (declarationsOf ds name)
    members := membersOf ds name }

/-- Declarations that are joined to a first one one after the other. -/
theorem foldl_join (first : Declaration) (later : List Declaration) :
    later.foldl Declaration.join first
      = { name := first.name
          parents := parentsMerged (first :: later)
          members := (first :: later).flatMap Declaration.members } := by
  induction later generalizing first with
  | nil => simp [parentsMerged, firstsBeside]
  | cons d later ih =>
      rw [List.foldl_cons, ih, parentsMerged_cons, parentsMerged_cons, List.flatMap_cons,
        List.flatMap_cons, List.flatMap_cons, List.flatMap_cons, List.foldl_append,
        ← List.append_assoc]
      rfl

/-! ## The table of merged declarations -/

/-- What stands under the name of a declaration when it is taken in. -/
def joinTo (old : Option Declaration) (d : Declaration) : Option Declaration :=
  some (match old with
    | none => d
    | some earlier => earlier.join d)

/-- **ONE STEP** joins a declaration to what there is of its name and leaves all other names
alone. -/
theorem get?_mergeStep (t : Keyed Declaration) (d : Declaration) (name : String) :
    (mergeStep t d).get? name = if d.name = name then joinTo (t.get? name) d else t.get? name := by
  rw [mergeStep, Keyed.get?_upsert]
  by_cases h : d.name = name
  · rw [if_pos h, if_pos h.symm, h]
    rfl
  · rw [if_neg h, if_neg fun heq => h heq.symm]

/-- Under a name only its own declarations are taken in. -/
theorem get?_foldl_mergeStep (ds : List Declaration) (t : Keyed Declaration) (name : String) :
    (ds.foldl mergeStep t).get? name = (declarationsOf ds name).foldl joinTo (t.get? name) := by
  induction ds generalizing t with
  | nil => rfl
  | cons d ds ih =>
      rw [List.foldl_cons, ih, get?_mergeStep, declarationsOf_cons, List.foldl_append]
      split <;> rfl

/-- Where there is something of a name, the later declarations are joined to it in turn. -/
theorem foldl_joinTo_some (later : List Declaration) (first : Declaration) :
    later.foldl joinTo (some first) = some (later.foldl Declaration.join first) := by
  induction later generalizing first with
  | nil => rfl
  | cons d later ih =>
      show later.foldl joinTo (some (first.join d)) = _
      rw [ih]
      rfl

/-- In the end one declaration stands under each name that is declared. -/
theorem get?_merged (ds : List Declaration) (name : String) :
    (ds.foldl mergeStep Keyed.empty).get? name
      = if declarationsOf ds name = [] then none else some (together ds name) := by
  have hget := get?_foldl_mergeStep ds Keyed.empty name
  cases hof : declarationsOf ds name with
  | nil =>
      rw [hget, hof]
      rfl
  | cons first later =>
      have hmem : first ∈ declarationsOf ds name := by
        rw [hof]
        exact List.mem_cons_self
      have hfirst : first.name = name := (mem_declarationsOf.mp hmem).2
      rw [hget, hof, if_neg (List.cons_ne_nil _ _), together, membersOf_eq, hof]
      show later.foldl joinTo (some first) = _
      rw [foldl_joinTo_some, foldl_join, hfirst]

/-- Declarations stand under their names. -/
theorem names_mergeStep (h : ∀ e ∈ t.entries, e.2.name = e.1) :
    ∀ e ∈ (mergeStep t d).entries, e.2.name = e.1 :=
  forall_mem_upsertPair (P := fun k d => Declaration.name d = k) h rfl fun _ hname => hname

/-- Every entry of the table is filed under its own name, at each step. -/
theorem names_foldl_mergeStep (h : ∀ e ∈ t.entries, e.2.name = e.1) :
    ∀ e ∈ (ds.foldl mergeStep t).entries, e.2.name = e.1 := by
  induction ds generalizing t with
  | nil => exact h
  | cons d ds ih => exact ih (names_mergeStep h)

theorem names_foldl_mergeStep_empty (ds : List Declaration) :
    ∀ e ∈ (ds.foldl mergeStep Keyed.empty).entries, e.2.name = e.1 :=
  names_foldl_mergeStep (by simp)

/-- Of the declarations of a table those of an interface are what stands under its name. -/
theorem filter_entries (h : ∀ e ∈ t.entries, e.2.name = e.1) (name : String) :
    (t.entries.map Prod.snd).filter (fun d => d.name == name) = (t.get? name).toList := by
  have hkey : ∀ e ∈ t.entries, ((fun d : Declaration => d.name == name) ∘ Prod.snd) e
      = (e.1 == name) := by
    intro e he
    rw [Function.comp_apply, h e he]
  rw [List.filter_map, List.filter_congr hkey, filter_fst_eq name t.nodup, Keyed.get?]
  cases t.entries.lookup name <;> rfl

/-! ## What merged declarations give to an interface -/

/-- Of merged declarations one is left of those of an interface. -/
theorem declarationsOf_mergeDeclarations (ds : List Declaration) (name : String) :
    declarationsOf (mergeDeclarations ds) name
      = if declarationsOf ds name = [] then [] else [together ds name] := by
  rw [declarationsOf, mergeDeclarations, filter_entries (names_foldl_mergeStep_empty ds),
    get?_merged]
  split <;> rfl

/-- **MERGING**: merged declarations give to each interface the members that the declarations
give to it, in the same order. -/
theorem membersOf_mergeDeclarations (ds : List Declaration) (name : String) :
    membersOf (mergeDeclarations ds) name = membersOf ds name := by
  rw [membersOf_eq, declarationsOf_mergeDeclarations]
  split
  · next h => rw [membersOf_eq, h]
  · exact List.append_nil _

/-- Of parents less is kept: a later declaration adds those that are new, while the repetitions of
the first one stay. -/
theorem parentsListed_mergeDeclarations (ds : List Declaration) (name : String) :
    parentsListed (mergeDeclarations ds) name = parentsMerged (declarationsOf ds name) := by
  rw [parentsListed_eq, declarationsOf_mergeDeclarations]
  split
  · next h =>
    rw [h]
    rfl
  · exact List.append_nil _

/-- The names of declarations in order of first appearance. -/
def firstNames (ds : List Declaration) : List String :=
  (ds.map Declaration.name).foldl addName []

/-- The names stand in the order in which they first occur. -/
theorem keys_foldl_mergeStep (ds : List Declaration) (t : Keyed Declaration) :
    (ds.foldl mergeStep t).keys = (ds.map Declaration.name).foldl addName t.keys := by
  induction ds generalizing t with
  | nil => rfl
  | cons d ds ih =>
      have hkeys : (mergeStep t d).keys = addName t.keys d.name := by
        rw [mergeStep, Keyed.keys_upsert, addName]
        simp only [List.contains_iff_mem]
      rw [List.foldl_cons, ih, hkeys, List.map_cons, List.foldl_cons]

/-- There is one merged declaration for each name, in order of first appearance. -/
theorem names_mergeDeclarations (ds : List Declaration) :
    (mergeDeclarations ds).map Declaration.name = firstNames ds := by
  have hnames : (mergeDeclarations ds).map Declaration.name
      = (ds.foldl mergeStep Keyed.empty).keys := by
    rw [mergeDeclarations, List.map_map, Keyed.keys]
    exact List.map_congr_left (names_foldl_mergeStep_empty ds)
  rw [hnames, keys_foldl_mergeStep]
  rfl

end Bindery
