import Bindery.Extraction
import Bindery.Proofs.Lineage.Agreement

/-!
# Restricted extractions

An extraction that is restricted to some interfaces keeps their entries and their names, and
of the table of parents what is reached from them.  That is enough for the selected
interfaces: they have the ancestors that they had, in the order that they had.  And it is no
more than a narrower selection needs: restricting again is restricting at once.

Both rest on the same fact, that the table that is kept agrees with the whole one on what is
reached from the selection (`ParentTable.agreeOn_keep_closure`).  The headline is
`isRestriction_restrict`.
-/

namespace Bindery.Extraction

variable {selected narrower : List String} {s : String}

/-! ## The parts of a restriction -/

/-- Without a selection everything is kept. -/
theorem restrict_nil (x : Extraction) : x.restrict [] = x := rfl

/-- A selection with no name in it keeps all; any other keeps its own. -/
theorem restrict_of_ne_nil (x : Extraction) (h : selected ≠ []) :
    x.restrict selected
      = { document :=
            { entries := x.document.entries.keep selected.contains
              parents :=
                x.document.parents.keep (x.document.parents.closure selected).contains }
          names := x.names.filter selected.contains } := by
  rw [restrict, if_neg]
  rwa [List.isEmpty_iff]

/-- The entries that are kept are those of the selection. -/
theorem entries_restrict (x : Extraction) (h : selected ≠ []) :
    (x.restrict selected).document.entries = x.document.entries.keep selected.contains := by
  rw [restrict_of_ne_nil x h]

/-- The parents that are kept are those of the selection and of all its ancestors. -/
theorem parents_restrict (x : Extraction) (h : selected ≠ []) :
    (x.restrict selected).document.parents
      = x.document.parents.keep (x.document.parents.closure selected).contains := by
  rw [restrict_of_ne_nil x h]

/-- The names that are kept are those of the selection, in their order. -/
theorem names_restrict (x : Extraction) (h : selected ≠ []) :
    (x.restrict selected).names = x.names.filter selected.contains := by
  rw [restrict_of_ne_nil x h]

/-- A restricted table of parents agrees with the whole one on what is reached from the
selection. -/
theorem agreeOn_restrict (x : Extraction) (h : selected ≠ []) :
    x.document.parents.AgreeOn (x.restrict selected).document.parents
      (· ∈ x.document.parents.closure selected) := by
  rw [parents_restrict x h]
  exact ParentTable.agreeOn_keep_closure x.document.parents selected

/-- Selected interfaces keep their ancestors. -/
theorem ancestors_restrict (x : Extraction) (h : selected ≠ []) (hs : s ∈ selected) :
    (x.restrict selected).document.parents.ancestors s = x.document.parents.ancestors s :=
  ((agreeOn_restrict x h).ancestors_eq (ParentTable.subset_closure hs)).symm

/-- Restricting to a selection and then to a part of it is restricting to that part. -/
theorem restrict_restrict (x : Extraction) (h : narrower ≠ [])
    (hsub : ∀ n ∈ narrower, n ∈ selected) :
    (x.restrict selected).restrict narrower = x.restrict narrower := by
  have hselected : selected ≠ [] := by
    rintro rfl
    exact h (List.eq_nil_iff_forall_not_mem.mpr fun n hn => List.not_mem_nil (hsub n hn))
  have hcontains : ∀ k, narrower.contains k = true → selected.contains k = true := by
    intro k hk
    rw [List.contains_iff_mem] at hk ⊢
    exact hsub k hk
  -- The first restriction keeps every table of parents on the way up from what it selects, and
  -- the second starts inside.
  have hclosure : (x.restrict selected).document.parents.closure narrower
      = x.document.parents.closure narrower :=
    ((agreeOn_restrict x hselected).closure_eq fun n hn =>
      ParentTable.subset_closure (hsub n hn)).symm
  rw [restrict_of_ne_nil _ h, hclosure, restrict_of_ne_nil x h, entries_restrict x hselected,
    parents_restrict x hselected, names_restrict x hselected, Keyed.keep_keep _ hcontains,
    Keyed.keep_keep, List.filter_filter]
  · congr 1
    refine List.filter_congr fun n _ => ?_
    rw [Bool.and_eq_left_iff_imp]
    exact hcontains n
  · intro k hk
    rw [List.contains_iff_mem] at hk ⊢
    exact ParentTable.closure_mono hsub hk

/-! ## The headline -/

/-- What is kept of an extraction for the selected interfaces. -/
structure IsRestriction (x : Extraction) (selected : List String) (y : Extraction) : Prop where
  /-- The selected interfaces have their entries, in the order of the document. -/
  entries : y.document.entries.entries
    = x.document.entries.entries.filter fun e => decide (e.1 ∈ selected)
  names : y.names = x.names.filter fun n => decide (n ∈ selected)
  /-- Parents are kept in the order of their table. -/
  parents : y.document.parents.entries.Sublist x.document.parents.entries
  /-- They are kept for the names that are reached from the selection, and for no other. -/
  reached : ∀ e, e ∈ y.document.parents.entries
    ↔ e ∈ x.document.parents.entries ∧ ∃ s ∈ selected, ∃ n, x.document.parents.Climb s n e.1
  /-- The selected interfaces have the ancestors that they had. -/
  ancestors : ∀ s ∈ selected, y.document.parents.ancestors s = x.document.parents.ancestors s
  /-- Nothing is lost for a narrower selection. -/
  again : ∀ narrower, narrower ≠ [] → (∀ n ∈ narrower, n ∈ selected) →
    y.restrict narrower = x.restrict narrower

/-- **RESTRICTION**: restricting an extraction to some interfaces keeps what their ancestors
need and nothing else, and a narrower restriction may follow or come at once. -/
theorem isRestriction_restrict (x : Extraction) {selected : List String} (h : selected ≠ []) :
    x.IsRestriction selected (x.restrict selected) := by
  have hdecide : ∀ n, selected.contains n = decide (n ∈ selected) :=
    fun n => List.contains_eq_mem n selected
  refine ⟨?_, ?_, ?_, ?_, ?_, ?_⟩
  · rw [entries_restrict x h, Keyed.entries_keep]
    exact List.filter_congr fun e _ => hdecide e.1
  · rw [names_restrict x h]
    exact List.filter_congr fun n _ => hdecide n
  · rw [parents_restrict x h]
    exact List.filter_sublist
  · intro e
    rw [parents_restrict x h, Keyed.entries_keep, List.mem_filter, List.contains_iff_mem,
      ParentTable.mem_closure_iff]
  · intro s hs
    exact ancestors_restrict x h hs
  · intro narrower hne hsub
    exact restrict_restrict x hne hsub

/-- An extraction whose table of parents has a cycle, an interface that extends itself, and an
interface that no other one extends. -/
def tangled : Extraction :=
  { document :=
      { entries :=
          ⟨[("Node", [.property ⟨"Node", "nodeName", "string", none⟩]),
            ("Range", [.property ⟨"Range", "collapsed", "boolean", none⟩]),
            ("Element", [.property ⟨"Element", "id", "string", none⟩])], by decide⟩
        parents :=
          ⟨[("Node", ["EventTarget", "Element"]), ("Range", ["Node"]),
            ("Element", ["Element", "Node"])], by decide⟩ }
    names := ["Node", "Range", "Element"] }

/-- Restricted to elements it has their entries, and the parents of elements and nodes. -/
theorem isRestriction_tangled :
    ["Element"] ≠ ([] : List String)
      ∧ tangled.IsRestriction ["Element"] (tangled.restrict ["Element"])
      ∧ (tangled.restrict ["Element"]).document.parents.keys = ["Node", "Element"]
      ∧ (tangled.restrict ["Element"]).document.parents.ancestors "Element"
        = ["Node", "EventTarget"] := by
  have hne : ["Element"] ≠ ([] : List String) := List.cons_ne_nil _ _
  have h := isRestriction_restrict tangled hne
  refine ⟨hne, h, by decide +kernel, ?_⟩
  rw [h.ancestors "Element" List.mem_cons_self]
  decide +kernel

end Bindery.Extraction
