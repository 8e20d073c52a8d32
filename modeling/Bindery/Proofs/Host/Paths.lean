import Bindery.Proofs.Host.Tree
import Bindery.Proofs.Text.Words

/-!
# The names of paths

What a path leads to depends on its names alone.  The names of a path below a directory are those
of the directory and then its own (`namesOf_join`).  The paths that contain a path have the first
of its names (`prefix_of_parent`, `prefix_of_containing`), so if no name goes back they lead less
deep (`length_placeOf_le`).
-/

namespace Bindery

open Text FileTree

/-! ## Segments -/

namespace Path

/-- The segments of a path that are names. -/
def names (cs : List Char) : List (List Char) := (segments cs).filter fun s => !s.isEmpty

theorem namesOf_eq (path : String) : namesOf path = (names path.toList).map String.ofList := rfl

/-- A path is cut at each slash. -/
theorem names_separator (xs ys : List Char) : names (xs ++ '/' :: ys) = names xs ++ names ys := by
  rw [names, segments, splitWhere_append_cons (by decide), List.filter_append]
  rfl

/-- A slash in front is no name. -/
theorem names_slash (cs : List Char) : names ('/' :: cs) = names cs := names_separator [] cs

/-- A name without a slash is one segment. -/
theorem names_of_forall {w : List Char} (hw : ∀ c ∈ w, (c == '/') = false) (hne : w ≠ []) :
    names w = [w] := by
  have hsegments : segments w = [w] := by
    have h : splitWhere (· == '/') (w ++ []) = [w ++ []] := splitWhere_append hw rfl
    rwa [List.append_nil] at h
  rw [names, hsegments, List.filter_cons_of_pos (by simpa using hne), List.filter_nil]

/-- The names of a path that was put together of segments. -/
theorem names_ofSegments {ss : List (List Char)} (h : ∀ s ∈ ss, ∀ c ∈ s, (c == '/') = false) :
    names (ofSegments ss) = ss.filter fun s => !s.isEmpty := by
  -- An empty segment is two slashes in a row, which names nothing.
  induction ss with
  | nil => rfl
  | cons s ss ih =>
      rw [List.forall_mem_cons] at h
      have hs : names s = [s].filter fun s => !s.isEmpty := by
        by_cases hne : s = []
        · rw [hne]
          rfl
        · rw [names_of_forall h.1 hne, List.filter_cons_of_pos (by simpa using hne)]
          rfl
      by_cases hss : ss = []
      · rw [hss]
        exact hs
      · rw [ofSegments, joinWith_cons _ _ hss, List.append_assoc, List.singleton_append,
          names_separator, hs]
        rw [ofSegments] at ih
        rw [ih h.2, ← List.filter_append]
        rfl

end Path

/-! ## Joined paths -/

/-- A path below a directory has the names of the directory first. -/
theorem FileTree.namesOf_join (base : String) {path : String}
    (h : Path.isAbsolute path.toList = false) :
    namesOf (Path.join base path) = namesOf base ++ namesOf path := by
  have hnames : Path.names (Path.joinChars base.toList path.toList)
      = Path.names base.toList ++ Path.names path.toList := by
    rw [Path.joinChars, h]
    simp only [Bool.false_eq_true, if_false]
    by_cases hempty : base.toList = []
    · rw [hempty]
      rfl
    · by_cases hslash : base.toList.getLast? = some '/'
      · rw [if_pos (by simp [hslash])]
        obtain ⟨front, hfront⟩ := List.getLast?_eq_some_iff.mp hslash
        rw [hfront, List.append_assoc, List.singleton_append, Path.names_separator,
          Path.names_separator]
        rw [show Path.names [] = [] from rfl, List.append_nil]
      · rw [if_neg (by simp [hempty, hslash]), Path.names_separator]
  rw [Path.namesOf_eq, Path.namesOf_eq, Path.namesOf_eq, Path.join, String.toList_ofList, hnames,
    List.map_append]

/-! ## Paths that contain a path -/

namespace Path

/-- Segments that are left are the first ones. -/
theorem of_parentSegments? {ss ps : List (List Char)} (h : parentSegments? ss = some ps) :
    ∃ more, ss = ps ++ more ∧ ∃ s ∈ more, isVoid s = false := by
  rw [parentSegments?] at h
  split at h
  · cases h
  · next s rest hdrop =>
    cases h
    obtain ⟨voids, hvoids⟩ := List.dropWhile_suffix isVoid (l := ss.reverse)
    obtain ⟨voids', hvoids'⟩ := List.dropWhile_suffix isVoid (l := rest)
    rw [hdrop] at hvoids
    generalize rest.dropWhile isVoid = kept at hvoids' ⊢
    refine ⟨voids'.reverse ++ [s] ++ voids.reverse, ?_, s, by simp, ?_⟩
    · have hss := congrArg List.reverse hvoids
      rw [List.reverse_reverse] at hss
      rw [← hss, ← hvoids']
      simp
    · have hhead := List.head?_dropWhile_not isVoid ss.reverse
      rw [hdrop] at hhead
      simpa using hhead

/-- The directories that contain a path are its beginnings. -/
theorem prefix_of_containingSegments {reversed ps : List (List Char)}
    (h : ps ∈ containingSegments reversed) : ps <+: reversed.reverse := by
  fun_induction containingSegments reversed with
  | case1 reversed hdrop => cases h
  | case2 reversed s rest hdrop hlt ih =>
      have hrest : rest <:+ reversed :=
        (List.suffix_cons s rest).trans (hdrop ▸ List.dropWhile_suffix isVoid)
      rcases List.mem_cons.mp h with rfl | h
      · exact List.reverse_prefix.mpr ((List.dropWhile_suffix isVoid).trans hrest)
      · exact (ih h).trans (List.reverse_prefix.mpr hrest)

/-- Names of the first segments are the first names. -/
theorem names_prefix {cs : List Char} {ps : List (List Char)} (h : ps <+: segments cs) :
    names (ofSegments ps) <+: names cs := by
  rw [names_ofSegments fun s hs => of_mem_splitWhere (h.subset hs)]
  exact h.filter _

end Path

/-- The path that contains a path lacks its last name at least. -/
theorem FileTree.prefix_of_parent {path dir : String} (h : Path.parent? path = some dir) :
    ∃ more, more ≠ [] ∧ namesOf path = namesOf dir ++ more := by
  -- A leading slash belongs to both paths, so the segments behind it decide.
  have hsegments : ∀ {cs : List Char} {ps : List (List Char)},
      Path.parentSegments? (Path.segments cs) = some ps →
      ∃ more, more ≠ [] ∧ Path.names cs = Path.names (Path.ofSegments ps) ++ more := by
    intro cs ps hps
    obtain ⟨more, heq, s, hs, hvoid⟩ := Path.of_parentSegments? hps
    have hslash : ∀ s ∈ ps, ∀ c ∈ s, (c == '/') = false := fun s hs =>
      of_mem_splitWhere (show s ∈ Path.segments cs from heq ▸ List.mem_append_left more hs)
    refine ⟨more.filter fun s => !s.isEmpty, ?_, ?_⟩
    · rw [Path.isVoid, Bool.or_eq_false_iff] at hvoid
      exact List.ne_nil_of_mem (List.mem_filter.mpr ⟨hs, by simp [hvoid.1]⟩)
    · rw [Path.names, heq, List.filter_append, Path.names_ofSegments hslash]
  have hchars : ∃ more, more ≠ [] ∧ Path.names path.toList = Path.names dir.toList ++ more := by
    rw [Path.parent?, Option.map_eq_some_iff] at h
    obtain ⟨cs, hcs, rfl⟩ := h
    rw [String.toList_ofList]
    unfold Path.parentChars? at hcs
    split at hcs
    · next rest hpath =>
      obtain ⟨ps, hps, rfl⟩ := Option.map_eq_some_iff.mp hcs
      rw [hpath, Path.names_slash, Path.names_slash]
      exact hsegments hps
    · obtain ⟨ps, hps, rfl⟩ := Option.map_eq_some_iff.mp hcs
      exact hsegments hps
  obtain ⟨more, hne, hnames⟩ := hchars
  refine ⟨more.map String.ofList, by simpa using hne, ?_⟩
  rw [Path.namesOf_eq, hnames, List.map_append]
  rfl

/-- The paths that contain a path have the first of its names. -/
theorem FileTree.prefix_of_containing {path outer : String} (h : outer ∈ Path.containing path) :
    namesOf outer <+: namesOf path := by
  have hchars : Path.names outer.toList <+: Path.names path.toList := by
    rw [Path.containing] at h
    split at h
    · next rest hpath =>
      obtain ⟨ps, hps, rfl⟩ := List.mem_map.mp h
      have hprefix := Path.prefix_of_containingSegments hps
      rw [List.reverse_reverse] at hprefix
      rw [String.toList_ofList, hpath, Path.names_slash, Path.names_slash]
      exact Path.names_prefix hprefix
    · obtain ⟨ps, hps, rfl⟩ := List.mem_map.mp h
      have hprefix := Path.prefix_of_containingSegments hps
      rw [List.reverse_reverse] at hprefix
      rw [String.toList_ofList]
      exact Path.names_prefix hprefix
  rw [Path.namesOf_eq, Path.namesOf_eq]
  exact hchars.map _

/-! ## Depth -/

namespace FileTree

/-- Names that do not go back do not lead up. -/
theorem length_le_foldl_walk {names : List String} (h : ".." ∉ names) (place : Place) :
    place.length ≤ (names.foldl walk place).length := by
  induction names generalizing place with
  | nil => exact Nat.le_refl _
  | cons name names ih =>
      rw [List.mem_cons, not_or] at h
      refine Nat.le_trans ?_ (ih h.2 (walk place name))
      rw [walk]
      split
      · exact Nat.le_refl _
      · rw [if_neg fun heq => h.1 heq.symm, List.length_append]
        exact Nat.le_add_right _ _

/-- The first of names that do not go back lead less deep than all of them. -/
theorem length_placeOf_le {path : String} {names : List String} (h : namesOf path <+: names)
    (hback : ".." ∉ names) : (placeOf path).length ≤ (names.foldl walk []).length := by
  obtain ⟨more, rfl⟩ := h
  rw [List.foldl_append]
  exact length_le_foldl_walk (fun hmem => hback (List.mem_append_right _ hmem)) _

end FileTree

end Bindery
