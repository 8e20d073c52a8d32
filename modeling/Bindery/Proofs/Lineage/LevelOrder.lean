import Bindery.Lineage
import Bindery.Proofs.Distinct
import Mathlib.Data.List.Basic
import Mathlib.Data.List.Nodup
import Mathlib.Order.WellFounded

/-!
# Ancestors in level order

What the listing of the ancestors of an interface is, said without the walk that finds
them: the names that are reached by going from interfaces to their direct parents, nearest
first, and of names that are equally near first the one that an earlier name of the listing
gives first (`IsLevelOrder`).

The walk marks a name when it takes it off its queue, so the queue may hold a name several
times.  All that matters of it is one equation (`ancestors_eq_firstsBeside`): the listing is
what the interface and the listing itself name as parents, each name where it first comes
up.  From there on the queue is out of sight.

The headline is `isLevelOrder_iff`: the listing is in level order, and nothing else is.
-/

namespace Bindery.ParentTable

variable {t : ParentTable} {a b name x y : String} {listing : List String} {m n : Nat}

/-! ## Going up -/

/-- From `a` one comes to a name by a number of steps to a direct parent. -/
inductive Climb (t : ParentTable) (a : String) : Nat → String → Prop where
  | start : Climb t a 0 a
  | step {n : Nat} {b c : String} : Climb t a n b → c ∈ t.parentsOf b → Climb t a (n + 1) c

/-- The least number of steps by which one comes from `a` to `b`. -/
structure Distance (t : ParentTable) (a b : String) (n : Nat) : Prop where
  climb : t.Climb a n b
  least : ∀ m, t.Climb a m b → n ≤ m

/-- Whatever is reached has a distance. -/
theorem Climb.exists_distance (h : t.Climb a n b) : ∃ k, t.Distance a b k := by
  obtain ⟨k, hk, hleast⟩ := WellFounded.has_min (r := (· < ·)) Nat.lt_wfRel.wf
    { k | t.Climb a k b } ⟨n, h⟩
  exact ⟨k, hk, fun m hm => Nat.le_of_not_lt (hleast m hm)⟩

theorem Distance.unique (hm : t.Distance a b m) (hn : t.Distance a b n) : m = n :=
  Nat.le_antisymm (hm.least n hn.climb) (hn.least m hm.climb)

theorem Distance.self (h : t.Distance a a n) : n = 0 :=
  Nat.le_zero.mp (h.least 0 .start)

/-- A name that is not the first one is a direct parent of a name one step nearer. -/
theorem Distance.exists_child (h : t.Distance a x (n + 1)) :
    ∃ b, t.Distance a b n ∧ x ∈ t.parentsOf b := by
  cases h.climb with
  | @step _ b _ hb hx =>
      refine ⟨b, ⟨hb, ?_⟩, hx⟩
      intro k hk
      have := h.least (k + 1) (hk.step hx)
      omega

/-! ## The walk -/

/-- What a walk finds is its queue and the parents of what it finds, each name where it
first comes up, and none that was visited before. -/
theorem walk_eq_firstsBeside (t : ParentTable) (visited queue : List String) :
    t.walk visited queue
      = firstsBeside id visited (queue ++ (t.walk visited queue).flatMap t.parentsOf) := by
  fun_induction ParentTable.walk t visited queue with
  | case1 visited => simp [firstsBeside]
  | case2 visited name rest hvisited ih =>
      rw [List.cons_append, firstsBeside, if_pos (by simpa using hvisited)]
      exact ih
  | case3 visited name rest hnew _ ih =>
      rw [List.cons_append, firstsBeside, if_neg (by simpa using hnew), List.flatMap_cons,
        ← List.append_assoc]
      exact congrArg (name :: ·) ih

/-- What holds of a queue and goes over to parents holds of what the walk finds. -/
theorem forall_mem_walk {P : String → Prop} {visited queue : List String}
    (hclosed : ∀ x, P x → ∀ y ∈ t.parentsOf x, P y) (hqueue : ∀ q ∈ queue, P q) :
    ∀ x ∈ t.walk visited queue, P x := by
  fun_induction ParentTable.walk t visited queue with
  | case1 visited => simp
  | case2 visited next rest hvisited ih =>
      rw [List.forall_mem_cons] at hqueue
      exact ih hqueue.2
  | case3 visited next rest hnew _ ih =>
      rw [List.forall_mem_cons] at hqueue ⊢
      refine ⟨hqueue.1, ih ?_⟩
      intro q hq
      rcases List.mem_append.mp hq with hrest | hparent
      · exact hqueue.2 q hrest
      · exact hclosed next hqueue.1 q hparent

/-- A walk finds nothing but what is reached from its queue. -/
theorem climb_of_mem_walk {visited queue : List String}
    (hqueue : ∀ q ∈ queue, ∃ n, t.Climb name (n + 1) q) :
    ∀ x ∈ t.walk visited queue, ∃ n, t.Climb name (n + 1) x := by
  refine forall_mem_walk ?_ hqueue
  rintro b ⟨n, hn⟩ y hy
  exact ⟨n + 1, hn.step hy⟩

/-- **THE EQUATION OF THE LISTING**: the ancestors are what the interface and its ancestors
name as parents, each name where it first comes up, without the interface itself. -/
theorem ancestors_eq_firstsBeside (t : ParentTable) (name : String) :
    t.ancestors name
      = firstsBeside id [name] ((name :: t.ancestors name).flatMap t.parentsOf) :=
  walk_eq_firstsBeside t [name] (t.parentsOf name)

/-- No ancestor is listed twice. -/
theorem nodup_ancestors (t : ParentTable) (name : String) : (t.ancestors name).Nodup := by
  have h := nodup_firstsBeside id [name] ((name :: t.ancestors name).flatMap t.parentsOf)
  rw [← ancestors_eq_firstsBeside, List.map_id] at h
  exact h

/-- The ancestors are the parents of the name and of its ancestors, the name itself left out. -/
theorem mem_ancestors_iff_mem_parents :
    x ∈ t.ancestors name
      ↔ x ∈ (name :: t.ancestors name).flatMap t.parentsOf ∧ x ≠ name := by
  have h := mem_names_firstsBeside id [name]
    ((name :: t.ancestors name).flatMap t.parentsOf) x
  rw [← ancestors_eq_firstsBeside, List.map_id, List.map_id, List.mem_singleton] at h
  exact h

/-- Whatever is reached is listed. -/
theorem mem_of_climb (h : t.Climb name n x) : x ∈ name :: t.ancestors name := by
  induction h with
  | start => exact List.mem_cons_self
  | @step n b x _ hx ih =>
      by_cases hself : x = name
      · rw [hself]
        exact List.mem_cons_self
      · refine List.mem_cons_of_mem name (mem_ancestors_iff_mem_parents.mpr ⟨?_, hself⟩)
        exact List.mem_flatMap.mpr ⟨b, ih, hx⟩

/-- The ancestors are the other names that are reached. -/
theorem mem_ancestors_iff : x ∈ t.ancestors name ↔ x ≠ name ∧ ∃ n, t.Climb name (n + 1) x := by
  constructor
  · intro hx
    refine ⟨(mem_ancestors_iff_mem_parents.mp hx).2, ?_⟩
    exact climb_of_mem_walk (fun q hq => ⟨0, Climb.start.step hq⟩) x hx
  · rintro ⟨hself, n, hn⟩
    exact (List.mem_cons.mp (mem_of_climb hn)).resolve_left hself

/-- What is listed is reached. -/
theorem climb_of_mem (h : x ∈ name :: t.ancestors name) : ∃ n, t.Climb name n x := by
  rcases List.mem_cons.mp h with rfl | hx
  · exact ⟨0, .start⟩
  · obtain ⟨-, n, hn⟩ := mem_ancestors_iff.mp hx
    exact ⟨n + 1, hn⟩

/-! ## Its order -/

/-- Ancestors are listed in the order in which they are named. -/
theorem pairwise_givenBefore (t : ParentTable) (name : String) :
    (t.ancestors name).Pairwise (GivenBefore t.parentsOf (name :: t.ancestors name)) := by
  have h := pairwise_firstsBeside id [name] ((name :: t.ancestors name).flatMap t.parentsOf)
  rw [← ancestors_eq_firstsBeside, List.map_id] at h
  refine h.imp_of_mem ?_
  intro x y hx _ hlt
  exact givenBefore_of_idxOf_lt (mem_ancestors_iff_mem_parents.mp hx).1 hlt

/-- Ancestors stand in the order in which they are first given as parents. -/
theorem givenBefore_of_lt (hx : x ∈ t.ancestors name) (hy : y ∈ t.ancestors name)
    (hlt : (t.ancestors name).idxOf x < (t.ancestors name).idxOf y) :
    GivenBefore t.parentsOf (name :: t.ancestors name) x y := by
  have h := List.pairwise_iff_getElem.mp (pairwise_givenBefore t name) _ _
    (List.idxOf_lt_length_of_mem hx) (List.idxOf_lt_length_of_mem hy) hlt
  rwa [List.getElem_idxOf, List.getElem_idxOf] at h

/-- What is listed no later is no farther away. -/
theorem distance_le_of_idxOf_le (hy : t.Distance name y n) (hx : t.Distance name x m)
    (hle : (name :: t.ancestors name).idxOf x ≤ (name :: t.ancestors name).idxOf y) :
    m ≤ n := by
  -- by the distance of `y`: its first child stands before a child that is one step nearer
  induction n generalizing x y m with
  | zero =>
      cases hy.climb
      rw [List.idxOf_cons_self, Nat.le_zero] at hle
      by_cases hself : name = x
      · rw [← hself] at hx
        exact Nat.le_of_eq hx.self
      · rw [List.idxOf_cons_ne _ hself] at hle
        cases hle
  | succ n ih =>
      obtain ⟨c, hc, hyc⟩ := hy.exists_child
      by_cases hself : x = name
      · rw [hself] at hx
        rw [hx.self]
        exact Nat.zero_le _
      · have hyself : y ≠ name := by
          rintro rfl
          cases hy.self
        have hxmem := (List.mem_cons.mp (mem_of_climb hx.climb)).resolve_left hself
        have hymem := (List.mem_cons.mp (mem_of_climb hy.climb)).resolve_left hyself
        rw [List.idxOf_cons_ne _ (fun h => hself h.symm),
          List.idxOf_cons_ne _ (fun h => hyself h.symm)] at hle
        obtain ⟨b, hb, hxb, hbplace⟩ :=
          exists_giver (mem_ancestors_iff_mem_parents.mp hxmem).1
        have hplaces : giverPlace t.parentsOf (name :: t.ancestors name) x
            ≤ giverPlace t.parentsOf (name :: t.ancestors name) y := by
          rcases Nat.lt_or_eq_of_le (Nat.succ_le_succ_iff.mp hle) with hlt | heq
          · have hbefore := givenBefore_of_lt hxmem hymem hlt
            unfold GivenBefore at hbefore
            omega
          · rw [(List.idxOf_inj hxmem).mp heq]
        have hcplace := giverPlace_le hyc (mem_of_climb hc.climb)
        obtain ⟨k, hk⟩ := climb_of_mem hb
        obtain ⟨d, hd⟩ := hk.exists_distance
        have hdn : d ≤ n := ih hc hd (by omega)
        have := hx.least (d + 1) (hd.climb.step hxb)
        omega

/-! ## The headline -/

/-- A listing of the names reached from an interface: each other name that is reached stands
in it once, nearer names before farther ones, and equally near names in the order in which
the interface and the listing name them. -/
structure IsLevelOrder (t : ParentTable) (name : String) (listing : List String) : Prop where
  nodup : listing.Nodup
  mem_iff : ∀ x, x ∈ listing ↔ x ≠ name ∧ ∃ n, t.Climb name (n + 1) x
  ordered : listing.Pairwise fun x y => ∀ m n, t.Distance name x m → t.Distance name y n →
    m < n ∨ m = n ∧ GivenBefore t.parentsOf (name :: listing) x y

/-- **THE LISTING** of ancestors is in level order. -/
theorem isLevelOrder_ancestors (t : ParentTable) (name : String) :
    t.IsLevelOrder name (t.ancestors name) := by
  refine ⟨nodup_ancestors t name, fun x => mem_ancestors_iff, ?_⟩
  rw [List.pairwise_iff_getElem]
  intro i j hi hj hij m n hm hn
  have hbefore := List.pairwise_iff_getElem.mp (pairwise_givenBefore t name) i j hi hj hij
  have hne : ∀ k (hk : k < (t.ancestors name).length), name ≠ (t.ancestors name)[k] :=
    fun k hk heq => (mem_ancestors_iff.mp (List.getElem_mem hk)).1 heq.symm
  have hle : m ≤ n := by
    refine distance_le_of_idxOf_le hn hm ?_
    rw [List.idxOf_cons_ne _ (hne i hi), List.idxOf_cons_ne _ (hne j hj),
      (nodup_ancestors t name).idxOf_getElem, (nodup_ancestors t name).idxOf_getElem]
    omega
  rcases Nat.lt_or_eq_of_le hle with hlt | heq
  · exact Or.inl hlt
  · exact Or.inr ⟨heq, hbefore⟩

namespace IsLevelOrder

variable {front back : List String}

/-- A member has a distance. -/
theorem exists_distance (h : t.IsLevelOrder name listing) (hx : x ∈ listing) :
    ∃ n, t.Distance name x (n + 1) := by
  obtain ⟨hself, n, hn⟩ := (h.mem_iff x).mp hx
  obtain ⟨k, hk⟩ := hn.exists_distance
  cases k with
  | zero =>
      cases hk.climb
      exact absurd rfl hself
  | succ k => exact ⟨k, hk⟩

/-- What stands behind a name is no nearer than that name. -/
theorem distance_le (h : t.IsLevelOrder name (front ++ x :: back)) (hy : y ∈ x :: back)
    (hm : t.Distance name x m) (hn : t.Distance name y n) : m ≤ n := by
  rcases List.mem_cons.mp hy with rfl | hback
  · exact Nat.le_of_eq (hm.unique hn)
  · have hpair := (List.pairwise_cons.mp (List.pairwise_append.mp h.ordered).2.1).1 y hback
    rcases hpair m n hm hn with hlt | ⟨heq, -⟩
    · exact Nat.le_of_lt hlt
    · exact Nat.le_of_eq heq

/-- Names that are as near as a member, or nearer, are named in front of it. -/
theorem mem_parents_front (h : t.IsLevelOrder name (front ++ x :: back))
    (hm : t.Distance name x m) (hy : t.Distance name y (n + 1)) (hle : n + 1 ≤ m) :
    y ∈ (name :: front).flatMap t.parentsOf := by
  obtain ⟨c, hc, hyc⟩ := hy.exists_child
  refine List.mem_flatMap.mpr ⟨c, ?_, hyc⟩
  by_cases hself : c = name
  · rw [hself]
    exact List.mem_cons_self
  · have hmem : c ∈ front ++ x :: back := by
      refine (h.mem_iff c).mpr ⟨hself, ?_⟩
      cases n with
      | zero =>
          cases hc.climb
          exact absurd rfl hself
      | succ n => exact ⟨n, hc.climb⟩
    rcases List.mem_append.mp hmem with hfront | hback
    · exact List.mem_cons_of_mem name hfront
    · -- a child is one step nearer, so it does not stand behind
      have := h.distance_le hback hm hc
      omega

/-- Two listings in level order that agree so far go on with the same name. -/
theorem next_eq {back' : List String} (h : t.IsLevelOrder name (front ++ x :: back))
    (h' : t.IsLevelOrder name (front ++ y :: back')) : x = y := by
  by_contra hne
  have hbehind : ∀ {u v : String} {us vs : List String}, u ≠ v →
      t.IsLevelOrder name (front ++ u :: us) → t.IsLevelOrder name (front ++ v :: vs) →
      v ∈ us := by
    intro u v us vs huv hu hv
    have hmem : v ∈ front ++ u :: us :=
      (hu.mem_iff v).mpr ((hv.mem_iff v).mp (by simp))
    rcases List.mem_append.mp hmem with hfront | hback
    · exact absurd rfl ((List.nodup_append.mp hv.nodup).2.2 v hfront v List.mem_cons_self)
    · exact (List.mem_cons.mp hback).resolve_left fun heq => huv heq.symm
  obtain ⟨m, hm⟩ := h.exists_distance (x := x) (by simp)
  obtain ⟨n, hn⟩ := h'.exists_distance (x := y) (by simp)
  have hxy := (List.pairwise_cons.mp (List.pairwise_append.mp h.ordered).2.1).1 y
    (hbehind hne h h') (m + 1) (n + 1) hm hn
  have hyx := (List.pairwise_cons.mp (List.pairwise_append.mp h'.ordered).2.1).1 x
    (hbehind (fun heq => hne heq.symm) h' h) (n + 1) (m + 1) hn hm
  obtain ⟨heq, hxy⟩ := hxy.resolve_left (by omega)
  obtain ⟨-, hyx⟩ := hyx.resolve_left (by omega)
  -- both are named in front, and there the two listings are one
  have hx := h.mem_parents_front hm hm (Nat.le_refl _)
  have hy := h.mem_parents_front hm hn (by omega)
  rw [← List.cons_append, givenBefore_append hx hy] at hxy
  rw [← List.cons_append, givenBefore_append hy hx] at hyx
  exact hxy.asymm hyx

/-- A listing in level order ends where another one ends. -/
theorem eq_nil (h : t.IsLevelOrder name (front ++ back)) (h' : t.IsLevelOrder name front) :
    back = [] := by
  rw [List.eq_nil_iff_forall_not_mem]
  intro x hx
  have hfront := (h'.mem_iff x).mpr ((h.mem_iff x).mp (List.mem_append_right front hx))
  exact (List.nodup_append.mp h.nodup).2.2 x hfront x hx rfl

/-- Two listings in level order that agree so far agree to the end. -/
theorem unique_behind (front : List String) {back back' : List String}
    (h : t.IsLevelOrder name (front ++ back)) (h' : t.IsLevelOrder name (front ++ back')) :
    back = back' := by
  induction back generalizing front back' with
  | nil =>
      rw [List.append_nil] at h
      exact (h'.eq_nil h).symm
  | cons x back ih =>
      cases back' with
      | nil =>
          rw [List.append_nil] at h'
          exact h.eq_nil h'
      | cons y back' =>
          obtain rfl := next_eq h h'
          rw [ih (front ++ [x]) (by simpa using h) (by simpa using h')]

end IsLevelOrder

/-- **LEVEL ORDER**: the ancestors of an interface are the listing in level order of the
names reached from it, and no other list is. -/
theorem isLevelOrder_iff (t : ParentTable) (name : String) (listing : List String) :
    t.IsLevelOrder name listing ↔ listing = t.ancestors name := by
  constructor
  · intro h
    exact IsLevelOrder.unique_behind [] h (isLevelOrder_ancestors t name)
  · rintro rfl
    exact isLevelOrder_ancestors t name

end Bindery.ParentTable
