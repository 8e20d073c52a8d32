import Bindery.Distinct
import Mathlib.Data.List.Basic
import Mathlib.Data.List.Nodup

/-!
# What stays when only the first counts

Two facts on `firsts` say which elements are kept and in which order.  An element is kept
exactly if it is the first one of its name (`mem_firstsBeside_iff`); and names come out in
the order in which they first come up (`pairwise_firstsBeside`), as a list of names without
its repetitions (`map_firsts`).

Where the names are given by the members of a listing one after the other, that order is
the one by who gives a name first, and then by the place where it is given
(`givenBefore_of_idxOf_lt`).

A listing in parts is thinned out part by part (`firstsBeside_append`), and may be thinned out
before it is (`firstsBeside_firstsBeside`).  Adding names one after the other comes to the same
(`foldl_addName_eq`).
-/

namespace Bindery

variable {α : Type}

/-- An element is kept if it is the first of its name and the name is not taken. -/
theorem mem_firstsBeside_iff (name : α → String) (taken : List String) (xs : List α) (x : α) :
    x ∈ firstsBeside name taken xs
      ↔ xs.find? (fun e => name e == name x) = some x ∧ name x ∉ taken := by
  induction xs generalizing taken with
  | nil => simp [firstsBeside]
  | cons e rest ih =>
      rw [firstsBeside]
      by_cases htaken : name e ∈ taken
      · rw [if_pos (by simpa using htaken), ih]
        by_cases heq : name e = name x
        · -- the name of `x` is that of `e`, hence taken on both sides
          rw [heq] at htaken
          simp [htaken]
        · rw [List.find?_cons_of_neg (by simpa using heq)]
      · rw [if_neg (by simpa using htaken), List.mem_cons, ih, List.mem_cons, not_or]
        by_cases heq : name e = name x
        · rw [List.find?_cons_of_pos (by simpa using heq), Option.some.injEq]
          constructor
          · rintro (rfl | ⟨-, hne, -⟩)
            · exact ⟨rfl, htaken⟩
            · exact absurd heq.symm hne
          · rintro ⟨rfl, -⟩
            exact Or.inl rfl
        · rw [List.find?_cons_of_neg (by simpa using heq)]
          have hne : x ≠ e := fun h => heq (by rw [h])
          have hne' : name x ≠ name e := fun h => heq h.symm
          simp [hne, hne']

/-- The first element of a name is kept. -/
theorem mem_firsts_iff (name : α → String) (xs : List α) (x : α) :
    x ∈ firsts name xs ↔ xs.find? (fun e => name e == name x) = some x := by
  rw [firsts, mem_firstsBeside_iff]
  simp

/-- Names come out in the order in which they first come up. -/
theorem pairwise_firstsBeside (name : α → String) (taken : List String) (xs : List α) :
    (firstsBeside name taken xs).Pairwise fun x y =>
      (xs.map name).idxOf (name x) < (xs.map name).idxOf (name y) := by
  -- behind an element of another name all places are one further on
  have hshift : ∀ (e : α) (rest : List α) (n : String), n ≠ name e →
      ((e :: rest).map name).idxOf n = (rest.map name).idxOf n + 1 := by
    intro e rest n hne
    rw [List.map_cons, List.idxOf_cons_ne _ (fun h => hne h.symm)]
  induction xs generalizing taken with
  | nil => exact List.Pairwise.nil
  | cons e rest ih =>
      have hkeep : ∀ taken', name e ∈ taken' →
          (firstsBeside name taken' rest).Pairwise fun x y =>
            ((e :: rest).map name).idxOf (name x) < ((e :: rest).map name).idxOf (name y) := by
        intro taken' hmem
        refine (ih taken').imp_of_mem ?_
        intro x y hx hy hlt
        have hne : ∀ z ∈ firstsBeside name taken' rest, name z ≠ name e := by
          intro z hz heq
          have := ((mem_firstsBeside_iff name taken' rest z).mp hz).2
          rw [heq] at this
          exact this hmem
        rw [hshift e rest _ (hne x hx), hshift e rest _ (hne y hy)]
        omega
      rw [firstsBeside]
      by_cases htaken : name e ∈ taken
      · rw [if_pos (by simpa using htaken)]
        exact hkeep taken htaken
      · rw [if_neg (by simpa using htaken), List.pairwise_cons]
        refine ⟨?_, hkeep _ List.mem_cons_self⟩
        intro y hy
        have hne : name y ≠ name e := by
          intro heq
          have := ((mem_firstsBeside_iff name _ rest y).mp hy).2
          rw [heq] at this
          exact this List.mem_cons_self
        rw [hshift e rest _ hne, List.map_cons, List.idxOf_cons_self]
        omega

/-- The names of the elements that are kept are the names that are not taken, each once. -/
theorem map_firstsBeside (name : α → String) (taken : List String) (xs : List α) :
    (firstsBeside name taken xs).map name
      = ((xs.map name).filter fun n => !taken.contains n).eraseDups := by
  induction xs generalizing taken with
  | nil => rfl
  | cons e rest ih =>
      rw [firstsBeside, List.map_cons, List.filter_cons]
      by_cases htaken : taken.contains (name e) = true
      · rw [if_pos htaken, if_neg (by rw [htaken]; decide), ih]
      · -- what is left to keep is apart from `taken` and from the name of `e`
        have hapart : (rest.map name).filter (fun n => !(name e :: taken).contains n)
            = ((rest.map name).filter fun n => !taken.contains n).filter
                (fun n => !n == name e) := by
          rw [List.filter_filter]
          refine List.filter_congr fun n _ => ?_
          rw [List.contains_cons, Bool.not_or]
        rw [if_neg htaken, if_pos (by simpa using htaken), List.map_cons, ih, hapart,
          List.eraseDups_cons]

/-- The names of the elements that are kept, each in the place where it first comes up. -/
theorem map_firsts (name : α → String) (xs : List α) :
    (firsts name xs).map name = (xs.map name).eraseDups := by
  rw [firsts, map_firstsBeside]
  simp

/-- What is kept of one list behind another is what is kept beside the names of the first. -/
theorem firstsBeside_append (name : α → String) (taken : List String) (xs ys : List α) :
    firstsBeside name taken (xs ++ ys)
      = firstsBeside name taken xs
        ++ firstsBeside name (((firstsBeside name taken xs).map name).reverse ++ taken) ys := by
  induction xs generalizing taken with
  | nil => rfl
  | cons x xs ih =>
      rw [List.cons_append, firstsBeside, firstsBeside]
      by_cases htaken : taken.contains (name x) = true
      · rw [if_pos htaken, if_pos htaken]
        exact ih taken
      · rw [if_neg htaken, if_neg htaken, ih, List.map_cons, List.reverse_cons,
          List.append_assoc]
        rfl

/-- One more element is kept unless its name is among those that are kept. -/
theorem firsts_append_singleton (name : α → String) (xs : List α) (x : α) :
    firsts name (xs ++ [x])
      = if name x ∈ (firsts name xs).map name then firsts name xs else firsts name xs ++ [x] := by
  rw [firsts, firstsBeside_append, List.append_nil, ← firsts, firstsBeside]
  by_cases hname : name x ∈ (firsts name xs).map name
  · rw [if_pos hname, if_pos (by simpa using hname)]
    exact List.append_nil _
  · rw [if_neg hname, if_neg (by simpa using hname)]
    rfl

/-- Elements that are dropped beside fewer names may be dropped before. -/
theorem firstsBeside_firstsBeside (name : α → String) {taken fewer : List String}
    (h : ∀ n ∈ fewer, n ∈ taken) (xs : List α) :
    firstsBeside name taken (firstsBeside name fewer xs) = firstsBeside name taken xs := by
  -- The inner pass adds each name it keeps, and so does the outer one, so the smaller list stays
  -- inside the larger.
  induction xs generalizing taken fewer with
  | nil => rfl
  | cons x xs ih =>
      have hmem : ∀ names : List String, names.contains (name x) = true ↔ name x ∈ names :=
        fun names => List.contains_iff_mem
      rw [firstsBeside]
      by_cases hfewer : name x ∈ fewer
      · rw [if_pos ((hmem _).mpr hfewer), ih h, firstsBeside, if_pos ((hmem _).mpr (h _ hfewer))]
      · rw [if_neg fun hc => hfewer ((hmem _).mp hc), firstsBeside, firstsBeside]
        by_cases htaken : name x ∈ taken
        · -- `x` goes only now, and what has its name with it
          rw [if_pos ((hmem _).mpr htaken), if_pos ((hmem _).mpr htaken)]
          refine ih fun n hn => ?_
          rcases List.mem_cons.mp hn with rfl | hn
          · exact htaken
          · exact h n hn
        · rw [if_neg fun hc => htaken ((hmem _).mp hc), if_neg fun hc => htaken ((hmem _).mp hc)]
          refine congrArg _ (ih fun n hn => ?_)
          rcases List.mem_cons.mp hn with rfl | hn
          · exact List.mem_cons_self
          · exact List.mem_cons_of_mem _ (h n hn)

/-- Beside one name the names that are kept are the other ones. -/
theorem firstsBeside_id_singleton (n : String) (names : List String) :
    firstsBeside id [n] names = distinct (names.filter fun m => m != n) := by
  have hbeside := map_firstsBeside id [n] names
  have hdistinct := map_firsts id (names.filter fun m => m != n)
  rw [List.map_id, List.map_id] at hbeside hdistinct
  rw [distinct, hdistinct, hbeside]
  refine congrArg _ (List.filter_congr fun m _ => ?_)
  rw [List.contains_cons, List.contains_nil, Bool.or_false]
  rfl

/-- No name is lost. -/
theorem mem_distinct_iff {n : String} {names : List String} : n ∈ distinct names ↔ n ∈ names := by
  have h := mem_names_firsts id names n
  rwa [List.map_id, List.map_id] at h

/-- Each name is kept once. -/
theorem nodup_distinct (names : List String) : (distinct names).Nodup := by
  have h := nodup_firsts id names
  rwa [List.map_id] at h

/-! ## Adding a name -/

/-- A name that is added to names without repetitions leaves none. -/
theorem nodup_addName {names : List String} (h : names.Nodup) (name : String) :
    (addName names name).Nodup := by
  rw [addName]
  split
  · exact h
  · next hname =>
    rw [List.contains_iff_mem] at hname
    exact List.nodup_append.mpr ⟨h, List.nodup_singleton name, fun a ha b hb heq =>
      hname (List.mem_singleton.mp hb ▸ heq ▸ ha)⟩

theorem addName_ne_nil (names : List String) (name : String) : addName names name ≠ [] := by
  rw [addName]
  split
  · next hname =>
    rw [List.contains_iff_mem] at hname
    exact List.ne_nil_of_mem hname
  · simp

theorem addName_of_mem {names : List String} {name : String} (h : name ∈ names) :
    addName names name = names := by
  rw [addName, if_pos (List.contains_iff_mem.mpr h)]

theorem addName_of_notMem {names : List String} {name : String} (h : name ∉ names) :
    addName names name = names ++ [name] := by
  rw [addName, if_neg fun hc => h (List.contains_iff_mem.mp hc)]

/-- A name is there after it was added, and no other is new. -/
theorem mem_addName_iff {names : List String} {name n : String} :
    n ∈ addName names name ↔ n ∈ names ∨ n = name := by
  by_cases h : name ∈ names
  · rw [addName_of_mem h]
    constructor
    · exact Or.inl
    · rintro (hn | rfl)
      · exact hn
      · exact h
  · rw [addName_of_notMem h, List.mem_append, List.mem_singleton]

/-- Names without repetitions that are added one after the other stay as they are. -/
theorem foldl_addName_of_nodup {names more : List String} (h : (names ++ more).Nodup) :
    more.foldl addName names = names ++ more := by
  induction more generalizing names with
  | nil => rw [List.foldl_nil, List.append_nil]
  | cons n more ih =>
      have hn : n ∉ names := fun hmem =>
        (List.nodup_append.mp h).2.2 n hmem n List.mem_cons_self rfl
      rw [List.append_cons] at h
      rw [List.foldl_cons, addName_of_notMem hn, ih h, ← List.append_cons]

/-- The names that are there after adding. -/
theorem mem_foldl_addName_iff {names more : List String} {n : String} :
    n ∈ more.foldl addName names ↔ n ∈ names ∨ n ∈ more := by
  induction more generalizing names with
  | nil => exact ⟨Or.inl, fun h => h.resolve_right List.not_mem_nil⟩
  | cons m more ih => rw [List.foldl_cons, ih, mem_addName_iff, List.mem_cons, or_assoc]

/-- It makes no difference in which order the names that are taken are listed. -/
theorem firstsBeside_congr (name : α → String) {taken taken' : List String}
    (h : ∀ n, n ∈ taken ↔ n ∈ taken') (xs : List α) :
    firstsBeside name taken xs = firstsBeside name taken' xs := by
  induction xs generalizing taken taken' with
  | nil => rfl
  | cons x xs ih =>
      have hcons : ∀ n, n ∈ name x :: taken ↔ n ∈ name x :: taken' := by
        intro n
        rw [List.mem_cons, List.mem_cons, h]
      have htaken : taken.contains (name x) = taken'.contains (name x) := by
        rw [Bool.eq_iff_iff, List.contains_iff_mem, List.contains_iff_mem, h]
      rw [firstsBeside, firstsBeside, htaken, ih h, ih hcons]

/-- Names that are added one after the other stand behind those that are there: of each of them the
first, unless it is there. -/
theorem foldl_addName_eq (names more : List String) :
    more.foldl addName names = names ++ firstsBeside id names more := by
  induction more generalizing names with
  | nil => exact (List.append_nil names).symm
  | cons n more ih =>
      rw [List.foldl_cons, ih, firstsBeside]
      by_cases hn : n ∈ names
      · rw [addName_of_mem hn, id, if_pos (List.contains_iff_mem.mpr hn)]
      · have hsame : ∀ m, m ∈ names ++ [n] ↔ m ∈ n :: names := by
          intro m
          rw [List.mem_append, List.mem_singleton, List.mem_cons, or_comm]
        rw [addName_of_notMem hn, id, if_neg fun hc => hn (List.contains_iff_mem.mp hc),
          firstsBeside_congr id hsame, List.append_assoc]
        rfl

/-- Keeping the first of each name is adding them one by one. -/
theorem distinct_eq_foldl (names : List String) : distinct names = names.foldl addName [] :=
  (foldl_addName_eq [] names).symm

/-- It makes no difference whether repetitions are dropped before names are added or by adding. -/
theorem foldl_addName_foldl (names first more : List String) :
    (more.foldl addName first).foldl addName names = (first ++ more).foldl addName names := by
  induction more generalizing first with
  | nil => rw [List.foldl_nil, List.append_nil]
  | cons n more ih =>
      rw [List.foldl_cons, ih]
      by_cases hn : n ∈ first
      · have hthere : n ∈ first.foldl addName names := mem_foldl_addName_iff.mpr (Or.inr hn)
        rw [addName_of_mem hn, List.foldl_append, List.foldl_append, List.foldl_cons,
          addName_of_mem hthere]
      · rw [addName_of_notMem hn, List.append_assoc, List.singleton_append]

/-- Names that are added never repeat one. -/
theorem nodup_foldl_addName {names : List String} (h : names.Nodup) (more : List String) :
    (more.foldl addName names).Nodup := by
  induction more generalizing names with
  | nil => exact h
  | cons n more ih => exact ih (nodup_addName h n)

/-! ## Who gives a name first -/

section Givers

variable {given : String → List String} {listing : List String} {b c x y : String}

/-- The place in a listing of the first member that gives a name. -/
def giverPlace (given : String → List String) (listing : List String) (x : String) : Nat :=
  listing.findIdx fun c => (given c).contains x

/-- The place that this member gives to the name. -/
def placeGiven (given : String → List String) (listing : List String) (x : String) : Nat :=
  match listing.find? fun c => (given c).contains x with
  | none => 0
  | some c => (given c).idxOf x

/-- Of two names `x` is given by an earlier member of the listing than `y`, or by the same
one at an earlier place. -/
def GivenBefore (given : String → List String) (listing : List String) (x y : String) : Prop :=
  giverPlace given listing x < giverPlace given listing y
    ∨ giverPlace given listing x = giverPlace given listing y
      ∧ placeGiven given listing x < placeGiven given listing y

/-- Of two names one is given first at most. -/
theorem GivenBefore.asymm (h : GivenBefore given listing x y) :
    ¬ GivenBefore given listing y x := by
  unfold GivenBefore at *
  omega

/-- The first member gives the name, at place zero. -/
theorem giverPlace_cons_pos (h : x ∈ given c) (listing : List String) :
    giverPlace given (c :: listing) x = 0 := by
  simp [giverPlace, List.findIdx_cons, h]

/-- If it does not, the place is one further on than among the others. -/
theorem giverPlace_cons_neg (h : x ∉ given c) (listing : List String) :
    giverPlace given (c :: listing) x = giverPlace given listing x + 1 := by
  simp [giverPlace, List.findIdx_cons, h]

theorem placeGiven_cons_pos (h : x ∈ given c) (listing : List String) :
    placeGiven given (c :: listing) x = (given c).idxOf x := by
  simp [placeGiven, h]

theorem placeGiven_cons_neg (h : x ∉ given c) (listing : List String) :
    placeGiven given (c :: listing) x = placeGiven given listing x := by
  simp [placeGiven, h]

/-- The first member that gives a name stands no later than any other. -/
theorem giverPlace_le (hx : x ∈ given b) (hb : b ∈ listing) :
    giverPlace given listing x ≤ listing.idxOf b := by
  induction listing with
  | nil => cases hb
  | cons c listing ih =>
      by_cases hc : x ∈ given c
      · rw [giverPlace_cons_pos hc]
        exact Nat.zero_le _
      · have hne : c ≠ b := by
          rintro rfl
          exact hc hx
        rw [giverPlace_cons_neg hc, List.idxOf_cons_ne _ hne]
        have := ih ((List.mem_cons.mp hb).resolve_left fun heq => hne heq.symm)
        omega

/-- The first member that gives a name is in the listing. -/
theorem exists_giver (h : x ∈ listing.flatMap given) :
    ∃ b ∈ listing, x ∈ given b ∧ listing.idxOf b ≤ giverPlace given listing x := by
  induction listing with
  | nil => cases h
  | cons c listing ih =>
      by_cases hc : x ∈ given c
      · exact ⟨c, List.mem_cons_self, hc, by simp⟩
      · rw [List.flatMap_cons, List.mem_append, or_iff_right hc] at h
        obtain ⟨b, hb, hx, hle⟩ := ih h
        have hne : c ≠ b := by
          rintro rfl
          exact hc hx
        refine ⟨b, List.mem_cons_of_mem c hb, hx, ?_⟩
        rw [giverPlace_cons_neg hc, List.idxOf_cons_ne _ hne]
        omega

/-- The order in which names first come up is the one by who gives them first. -/
theorem givenBefore_of_idxOf_lt (hx : x ∈ listing.flatMap given)
    (hlt : (listing.flatMap given).idxOf x < (listing.flatMap given).idxOf y) :
    GivenBefore given listing x y := by
  induction listing with
  | nil => cases hx
  | cons c listing ih =>
      rw [List.flatMap_cons] at hlt hx
      by_cases hxc : x ∈ given c
      · by_cases hyc : y ∈ given c
        · rw [List.idxOf_append_of_mem hxc, List.idxOf_append_of_mem hyc] at hlt
          refine Or.inr ?_
          rw [giverPlace_cons_pos hxc, giverPlace_cons_pos hyc, placeGiven_cons_pos hxc,
            placeGiven_cons_pos hyc]
          exact ⟨rfl, hlt⟩
        · refine Or.inl ?_
          rw [giverPlace_cons_pos hxc, giverPlace_cons_neg hyc]
          exact Nat.succ_pos _
      · by_cases hyc : y ∈ given c
        · -- `c` gives `y`, and `x` comes up only behind what `c` gives
          rw [List.idxOf_append_of_notMem hxc, List.idxOf_append_of_mem hyc] at hlt
          have := List.idxOf_lt_length_of_mem hyc
          omega
        · rw [List.idxOf_append_of_notMem hxc, List.idxOf_append_of_notMem hyc] at hlt
          rw [List.mem_append, or_iff_right hxc] at hx
          have hrest := ih hx (by omega)
          unfold GivenBefore at *
          rw [giverPlace_cons_neg hxc, giverPlace_cons_neg hyc, placeGiven_cons_neg hxc,
            placeGiven_cons_neg hyc]
          omega

/-- Further members change nothing about names that are given already. -/
theorem givenBefore_append (hx : x ∈ listing.flatMap given) (hy : y ∈ listing.flatMap given)
    (further : List String) :
    GivenBefore given (listing ++ further) x y ↔ GivenBefore given listing x y := by
  have hfound : ∀ z ∈ listing.flatMap given,
      giverPlace given (listing ++ further) z = giverPlace given listing z
        ∧ placeGiven given (listing ++ further) z = placeGiven given listing z := by
    intro z hz
    obtain ⟨b, hb, hzb⟩ := List.mem_flatMap.mp hz
    have hsome : (listing.find? fun c => (given c).contains z).isSome := by
      rw [List.find?_isSome]
      exact ⟨b, hb, by simpa using hzb⟩
    obtain ⟨c, hc⟩ := Option.isSome_iff_exists.mp hsome
    refine ⟨?_, ?_⟩
    · rw [giverPlace, giverPlace, List.findIdx_append, if_pos]
      exact List.findIdx_lt_length_of_exists ⟨b, hb, by simpa using hzb⟩
    · rw [placeGiven, placeGiven, List.find?_append, hc]
      rfl
  unfold GivenBefore
  rw [(hfound x hx).1, (hfound x hx).2, (hfound y hy).1, (hfound y hy).2]

end Givers

end Bindery
