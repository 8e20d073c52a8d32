import Bindery.Proofs.Keyed
import Bindery.Proofs.Lineage.LevelOrder

/-!
# What a walk depends on

A walk over a table of parents reads the parents of the names that it visits, and of those
only the ones that are new to it.  So two walks find the same names in the same order if
their queues hold the same new names and their tables give each visited name the same parents
in order of first appearance, the name itself left out (`AgreeOn.walk_eq`).  Repeated parents,
interfaces that extend themselves, the order of the table and what it says of other names
leave no trace.

The closure of names is what is reached from them (`mem_closure_iff`).  A table of which only
the closure is kept agrees with the whole one there (`agreeOn_keep_closure`).
-/

namespace Bindery.ParentTable

variable {t t' : ParentTable} {P : String → Prop} {name x : String}
  {visited queue queue' names rest : List String}

/-! ## Steps over new names -/

/-- The parents of an interface other than itself, each where it first comes up. -/
def otherParents (t : ParentTable) (name : String) : List String :=
  distinct ((t.parentsOf name).filter fun parent => parent != name)

theorem mem_otherParents_iff : x ∈ t.otherParents name ↔ x ∈ t.parentsOf name ∧ x ≠ name := by
  rw [otherParents, mem_distinct_iff, List.mem_filter, bne_iff_ne]

/-- A walk over names that were visited finds nothing. -/
theorem walk_eq_nil (h : firstsBeside id visited queue = []) : t.walk visited queue = [] := by
  induction queue with
  | nil => rw [walk]
  | cons q queue ih =>
      rw [firstsBeside] at h
      by_cases hq : q ∈ visited
      · rw [if_pos (by simpa using hq)] at h
        rw [walk, dif_pos hq]
        exact ih h
      · rw [if_neg (by simpa using hq)] at h
        cases h

/-- A walk goes on with the first name of its queue that is new. -/
theorem walk_eq_cons (h : firstsBeside id visited queue = name :: rest) :
    ∃ behind, firstsBeside id (name :: visited) behind = rest
      ∧ t.walk visited queue = name :: t.walk (name :: visited) (behind ++ t.parentsOf name) := by
  induction queue with
  | nil => cases h
  | cons q queue ih =>
      rw [firstsBeside] at h
      by_cases hq : q ∈ visited
      · rw [if_pos (by simpa using hq)] at h
        rw [walk, dif_pos hq]
        exact ih h
      · rw [if_neg (by simpa using hq)] at h
        obtain ⟨rfl, hrest⟩ := List.cons.inj h
        refine ⟨queue, hrest, ?_⟩
        rw [walk, dif_neg hq]

/-- Of the parents that are put behind a queue only those matter that are new. -/
theorem firstsBeside_append_congr {parents parents' : List String}
    (hqueue : firstsBeside id visited queue = firstsBeside id visited queue')
    (hname : name ∈ visited)
    (hparents : firstsBeside id [name] parents = firstsBeside id [name] parents') :
    firstsBeside id visited (queue ++ parents) = firstsBeside id visited (queue' ++ parents') := by
  have hother : ∀ taken : List String, name ∈ taken → ∀ ps : List String,
      firstsBeside id taken ps = firstsBeside id taken (firstsBeside id [name] ps) := by
    intro taken hmem ps
    refine (firstsBeside_firstsBeside id (fun n hn => ?_) ps).symm
    rw [List.mem_singleton.mp hn]
    exact hmem
  rw [firstsBeside_append, firstsBeside_append, hqueue,
    hother _ (List.mem_append_right _ hname) parents, hparents,
    ← hother _ (List.mem_append_right _ hname) parents']

/-! ## Two tables -/

/-- Two tables agree on names: going to parents in the first table one does not leave these
names, and both tables give each of them the same other parents. -/
structure AgreeOn (t t' : ParentTable) (P : String → Prop) : Prop where
  closed : ∀ x, P x → ∀ y ∈ t.parentsOf x, P y
  parents : ∀ x, P x → t.otherParents x = t'.otherParents x

/-- **TWO WALKS**: from queues with the same new names, over tables that agree on what the
first walk comes by, two walks find the same. -/
theorem AgreeOn.walk_eq (h : t.AgreeOn t' P) (hqueue : ∀ q ∈ queue, P q)
    (heq : firstsBeside id visited queue = firstsBeside id visited queue') :
    t.walk visited queue = t'.walk visited queue' := by
  -- The queues may differ in what was visited before, so they are compared by what they still
  -- have to give.
  fun_induction ParentTable.walk t visited queue generalizing queue' with
  | case1 visited => exact (walk_eq_nil heq.symm).symm
  | case2 visited next rest hvisited ih =>
      rw [List.forall_mem_cons] at hqueue
      refine ih hqueue.2 ?_
      rw [← heq, firstsBeside, if_pos (by simpa using hvisited)]
  | case3 visited next rest hnew _ ih =>
      rw [List.forall_mem_cons] at hqueue
      rw [firstsBeside, if_neg (by simpa using hnew)] at heq
      obtain ⟨behind, hbehind, hwalk⟩ := walk_eq_cons (t := t') heq.symm
      rw [hwalk]
      refine congrArg (next :: ·) (ih ?_ ?_)
      · intro q hq
        rcases List.mem_append.mp hq with hrest | hparent
        · exact hqueue.2 q hrest
        · exact h.closed next hqueue.1 q hparent
      · refine firstsBeside_append_congr hbehind.symm List.mem_cons_self ?_
        rw [firstsBeside_id_singleton, firstsBeside_id_singleton]
        exact h.parents next hqueue.1

/-- A name has the same ancestors in tables that agree on it. -/
theorem AgreeOn.ancestors_eq (h : t.AgreeOn t' P) (hname : P name) :
    t.ancestors name = t'.ancestors name := by
  refine h.walk_eq (h.closed name hname) ?_
  rw [firstsBeside_id_singleton, firstsBeside_id_singleton]
  exact h.parents name hname

/-- Names have the same closure in tables that agree on them. -/
theorem AgreeOn.closure_eq (h : t.AgreeOn t' P) (hnames : ∀ n ∈ names, P n) :
    t.closure names = t'.closure names :=
  h.walk_eq hnames rfl

/-! ## What is reached from names -/

/-- The closure of names is what they name, they and their parents and so on. -/
theorem mem_closure_iff : x ∈ t.closure names ↔ ∃ n ∈ names, ∃ k, t.Climb n k x := by
  -- the walk visits its names and the parents of all it visits
  have hequation : ∀ y, y ∈ t.closure names
      ↔ y ∈ names ∨ ∃ b ∈ t.closure names, y ∈ t.parentsOf b := by
    intro y
    rw [closure]
    have h := mem_names_firstsBeside id [] (names ++ (t.walk [] names).flatMap t.parentsOf) y
    rw [← walk_eq_firstsBeside, List.map_id, List.map_id, List.mem_append,
      List.mem_flatMap] at h
    simpa using h
  constructor
  · refine forall_mem_walk (P := fun y => ∃ n ∈ names, ∃ k, t.Climb n k y) ?_ ?_ x
    · rintro b ⟨n, hn, k, hk⟩ y hy
      exact ⟨n, hn, k + 1, hk.step hy⟩
    · intro n hn
      exact ⟨n, hn, 0, .start⟩
  · rintro ⟨n, hn, k, hk⟩
    induction hk with
    | start => exact (hequation n).mpr (Or.inl hn)
    | @step k b y _ hy ih => exact (hequation y).mpr (Or.inr ⟨b, ih, hy⟩)

/-- The closure has the names themselves. -/
theorem subset_closure (h : x ∈ names) : x ∈ t.closure names :=
  mem_closure_iff.mpr ⟨x, h, 0, .start⟩

/-- The closure has the parents of whatever it has. -/
theorem closed_closure (hx : x ∈ t.closure names) : ∀ y ∈ t.parentsOf x, y ∈ t.closure names := by
  obtain ⟨n, hn, k, hk⟩ := mem_closure_iff.mp hx
  exact fun y hy => mem_closure_iff.mpr ⟨n, hn, k + 1, hk.step hy⟩

/-- More names have a larger closure. -/
theorem closure_mono (h : ∀ n ∈ names, n ∈ queue) (hx : x ∈ t.closure names) :
    x ∈ t.closure queue := by
  obtain ⟨n, hn, k, hk⟩ := mem_closure_iff.mp hx
  exact mem_closure_iff.mpr ⟨n, h n hn, k, hk⟩

/-- A table agrees with what is kept of it, on the names that are reached from some. -/
theorem agreeOn_keep_closure (t : ParentTable) (names : List String) :
    t.AgreeOn (t.keep (t.closure names).contains) (· ∈ t.closure names) := by
  refine ⟨fun x hx => closed_closure hx, fun x hx => ?_⟩
  have hparents : ParentTable.parentsOf (t.keep (t.closure names).contains) x = t.parentsOf x := by
    rw [parentsOf, Keyed.get?_keep, if_pos (List.contains_iff_mem.mpr hx)]
    rfl
  rw [otherParents, otherParents, hparents]

end Bindery.ParentTable
