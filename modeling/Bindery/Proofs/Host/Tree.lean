import Bindery.Host.FileTree
import Bindery.Proofs.Keyed

/-!
# What an operation changes in a file tree

A path leads to a place that its names alone tell (`placeOf`): if anything stands there, that is
where following the path ends (`foldl_walk_of_follow`).

Making a directory puts it where nothing was, and writing a file puts it where no directory is.
`Changes` is the relation between trees that this comes to.  It is what a whole run of such
operations comes to as well (`Changes.trans`), and under it what a path leads to is found again,
unless it was written over (`Changes.read_eq`).
-/

namespace Bindery.FileTree

open Text

/-! ## Places -/

/-- Where a name leads from a place. -/
def walk (place : Place) (name : String) : Place :=
  if name = "." then place else if name = ".." then place.dropLast else place ++ [name]

/-- The place that a path leads to. -/
def placeOf (path : String) : Place := (namesOf path).foldl walk []

section Places

variable {t : FileTree} {place next : Place} {name path : String} {names : List String}

/-- One step leads to where the names alone would lead. -/
theorem walk_of_step (h : t.step place name = .ok next) : next = walk place name := by
  rw [step] at h
  rw [walk]
  split at h
  · split at h
    · next hdot =>
      rw [if_pos hdot]
      exact (Except.ok.inj h).symm
    · next hdot =>
      rw [if_neg hdot]
      split at h
      · next hback =>
        rw [if_pos hback]
        exact (Except.ok.inj h).symm
      · next hback =>
        rw [if_neg hback]
        split at h
        · cases h
        · split at h
          · exact (Except.ok.inj h).symm
          · cases h
  · cases h
  · cases h

/-- Only a directory is left by a step, and what is stepped to is there. -/
theorem step_eq_ok_iff :
    t.step place name = .ok next
      ↔ t.node? place = some .directory ∧ next = walk place name
        ∧ (name = "." ∨ name = ".."
          ∨ (¬ maxNameBytes < byteSize name.toList ∧ (t.node? (place ++ [name])).isSome)) := by
  -- The two dots are followed without looking up a name, hence three ways.
  constructor
  · intro h
    have hnext := walk_of_step h
    rw [step] at h
    split at h
    · next hdirectory =>
      refine ⟨hdirectory, hnext, ?_⟩
      split at h
      · next hdot => exact Or.inl hdot
      · split at h
        · next hback => exact Or.inr (Or.inl hback)
        · split at h
          · cases h
          · next hshort =>
            split at h
            · next htaken => exact Or.inr (Or.inr ⟨hshort, htaken⟩)
            · cases h
    · cases h
    · cases h
  · rintro ⟨hdirectory, rfl, hname⟩
    rw [step, walk, hdirectory]
    by_cases hdot : name = "."
    · simp only [if_pos hdot]
    · by_cases hback : name = ".."
      · simp only [if_neg hdot, if_pos hback]
      · obtain ⟨hshort, htaken⟩ := (hname.resolve_left hdot).resolve_left hback
        simp only [if_neg hdot, if_neg hback, if_neg hshort, if_pos htaken]

/-- A path is followed in two parts. -/
theorem follow_append {more : List String} :
    t.follow place (names ++ more) = .ok next
      ↔ ∃ middle, t.follow place names = .ok middle ∧ t.follow middle more = .ok next := by
  induction names generalizing place with
  | nil => simp [follow]
  | cons name names ih =>
      rw [List.cons_append, follow, follow]
      cases t.step place name with
      | error e => simp
      | ok middle => exact ih

/-- A path that can be followed leads to where its names lead. -/
theorem foldl_walk_of_follow (h : t.follow place names = .ok next) :
    next = names.foldl walk place := by
  induction names generalizing place with
  | nil => exact (Except.ok.inj h).symm
  | cons name names ih =>
      rw [follow] at h
      split at h
      · cases h
      · next hstep =>
        rw [List.foldl_cons, ← walk_of_step hstep]
        exact ih h

/-- A path is read if it leads to its place and a file is there. -/
theorem read_eq_ok_iff {bytes : ByteArray} :
    t.read path = .ok bytes
      ↔ (pathFault? path = none ∧ endsWithSlash path = false)
        ∧ t.follow [] (namesOf path) = .ok (placeOf path)
        ∧ t.node? (placeOf path) = some (.file bytes) := by
  constructor
  · intro h
    rw [read] at h
    split at h
    · cases h
    · cases h
    · next hfind =>
      cases h
      rw [find] at hfind
      split at hfind
      · cases hfind
      · next hfault =>
        split at hfind
        · cases hfind
        · next hfollow =>
          split at hfind
          · cases hfind
          · cases hfind
          · next hnode =>
            split at hfind
            · cases hfind
            · next hslash =>
              cases hfind
              -- the tree has no links, so following the names leads where the path says
              obtain rfl := foldl_walk_of_follow hfollow
              exact ⟨⟨hfault, by simpa using hslash⟩, hfollow, hnode⟩
  · rintro ⟨⟨hfault, hslash⟩, hfollow, hnode⟩
    have hfind : t.find path = .ok (placeOf path, .file bytes) := by
      rw [find, hfault]
      simp only [hfollow, hnode, hslash, Bool.false_eq_true, if_false]
    rw [read, hfind]

end Places

/-! ## Spots -/

/-- A path ends with a name in an existing directory. -/
structure EndsAt (t : FileTree) (path : String) (s : Spot) : Prop where
  fault : pathFault? path = none
  outer : t.follow [] (namesOf path).dropLast = .ok s.outer
  directory : t.node? s.outer = some .directory
  last : (namesOf path).getLast? = some s.name
  proper : ¬ (s.name = "." ∨ s.name = "..")

section Spots

variable {t : FileTree} {path : String} {s : Spot}

/-- The spot of a path is where it ends. -/
theorem endsAt_of_spot (h : t.spot path = .ok (some s)) : t.EndsAt path s := by
  rw [spot] at h
  split at h
  · cases h
  · next hfault =>
    simp only at h
    split at h
    · cases h
    · next houter =>
      split at h
      · cases h
      · cases h
      · cases h
      · next hdirectory hlast =>
        split at h
        · cases h
        · next hproper =>
          cases h
          exact ⟨hfault, houter, hdirectory, hlast, hproper⟩

theorem EndsAt.names_eq (h : t.EndsAt path s) :
    namesOf path = (namesOf path).dropLast ++ [s.name] := by
  obtain ⟨front, hfront⟩ := List.getLast?_eq_some_iff.mp h.last
  rw [hfront, List.dropLast_concat]

/-- From the directory of a spot its last name leads to its place. -/
theorem EndsAt.walk_eq (h : t.EndsAt path s) : walk s.outer s.name = s.place := by
  rw [walk, if_neg fun hdot => h.proper (Or.inl hdot), if_neg fun hback => h.proper (Or.inr hback)]
  rfl

/-- The spot is the place of the path. -/
theorem EndsAt.place_eq (h : t.EndsAt path s) : s.place = placeOf path := by
  rw [placeOf, h.names_eq, List.foldl_append, ← foldl_walk_of_follow h.outer]
  exact h.walk_eq.symm

/-- The path leads to the spot if something is there. -/
theorem EndsAt.follow_eq (h : t.EndsAt path s)
    (hshort : ¬ maxNameBytes < byteSize s.name.toList) (htaken : (t.node? s.place).isSome) :
    t.follow [] (namesOf path) = .ok (placeOf path) := by
  have hstep : t.step s.outer s.name = .ok s.place :=
    step_eq_ok_iff.mpr ⟨h.directory, h.walk_eq.symm, Or.inr (Or.inr ⟨hshort, htaken⟩)⟩
  rw [h.names_eq, ← h.place_eq]
  refine follow_append.mpr ⟨s.outer, h.outer, ?_⟩
  rw [follow, hstep]
  rfl

end Spots

/-! ## Changes -/

/-- The bytes of the file at a place, if a file is there. -/
def bytesAt (t : FileTree) (place : Place) : Option ByteArray :=
  match t.node? place with
  | some (.file bytes) => some bytes
  | _ => none

/-- At given places directories are made where nothing was, and at given places files are
written where no directory is.  Nothing else changes. -/
def Changes (made written : List Place) (t t' : FileTree) : Prop :=
  ∀ place, t'.node? place = t.node? place
    ∨ (place ∈ made ∧ t.node? place = none ∧ t'.node? place = some .directory)
    ∨ (place ∈ written ∧ t.node? place ≠ some .directory
        ∧ ∃ bytes, t'.node? place = some (.file bytes))

namespace Changes

variable {t t' t'' : FileTree} {made written made' written' : List Place} {place : Place}

theorem refl (made written : List Place) (t : FileTree) : Changes made written t t :=
  fun _ => Or.inl rfl

/-- What changed within some places changed within more. -/
theorem mono (h : Changes made written t t') (hmade : made ⊆ made')
    (hwritten : written ⊆ written') : Changes made' written' t t' := by
  intro place
  rcases h place with hsame | ⟨hmem, hrest⟩ | ⟨hmem, hrest⟩
  · exact Or.inl hsame
  · exact Or.inr (Or.inl ⟨hmade hmem, hrest⟩)
  · exact Or.inr (Or.inr ⟨hwritten hmem, hrest⟩)

/-- Directories stay. -/
theorem directory (h : Changes made written t t') (hplace : t.node? place = some .directory) :
    t'.node? place = some .directory := by
  rcases h place with hsame | ⟨-, hnone, -⟩ | ⟨-, hne, -⟩
  · rw [hsame, hplace]
  · rw [hplace] at hnone
    cases hnone
  · exact absurd hplace hne

/-- What was there is there in some way. -/
theorem isSome (h : Changes made written t t') (hplace : (t.node? place).isSome) :
    (t'.node? place).isSome := by
  rcases h place with hsame | ⟨-, -, hmade⟩ | ⟨-, -, bytes, hfile⟩
  · rw [hsame]
    exact hplace
  · rw [hmade]
    rfl
  · rw [hfile]
    rfl

/-- What is not written over stays as it is. -/
theorem node?_eq {node : Node} (h : Changes made written t t') (hplace : place ∉ written)
    (hnode : t.node? place = some node) : t'.node? place = some node := by
  rcases h place with hsame | ⟨-, hnone, -⟩ | ⟨hmem, -⟩
  · rw [hsame, hnode]
  · rw [hnode] at hnone
    cases hnone
  · exact absurd hmem hplace

/-- No file is made, changed or removed at another place. -/
theorem bytesAt_eq (h : Changes made written t t') (hplace : place ∉ written) :
    t'.bytesAt place = t.bytesAt place := by
  rw [bytesAt, bytesAt]
  rcases h place with hsame | ⟨-, hnone, hmade⟩ | ⟨hmem, -⟩
  · rw [hsame]
  · rw [hnone, hmade]
  · exact absurd hmem hplace

/-- **ONE CHANGE AFTER THE OTHER** is a change at the places of both. -/
theorem trans (h : Changes made written t t') (h' : Changes made' written' t' t'') :
    Changes (made ++ made') (written ++ written') t t'' := by
  intro place
  rcases h place with hsame | ⟨hmem, hnone, hmade⟩ | ⟨hmem, hne, bytes, hfile⟩
  · rcases h' place with hsame' | ⟨hmem', hrest'⟩ | ⟨hmem', hrest'⟩
    · exact Or.inl (hsame'.trans hsame)
    · rw [hsame] at hrest'
      exact Or.inr (Or.inl ⟨List.mem_append_right _ hmem', hrest'⟩)
    · rw [hsame] at hrest'
      exact Or.inr (Or.inr ⟨List.mem_append_right _ hmem', hrest'⟩)
  · exact Or.inr (Or.inl ⟨List.mem_append_left _ hmem, hnone, h'.directory hmade⟩)
  · -- a file stays a file, be it written again or not
    refine Or.inr (Or.inr ⟨List.mem_append_left _ hmem, hne, ?_⟩)
    rcases h' place with hsame' | ⟨-, hnone', -⟩ | ⟨-, -, hfile'⟩
    · exact ⟨bytes, hsame'.trans hfile⟩
    · rw [hfile] at hnone'
      cases hnone'
    · exact hfile'

/-- One change after the other at the same places. -/
theorem trans_same (h : Changes made written t t') (h' : Changes made written t' t'') :
    Changes made written t t'' :=
  (h.trans h').mono (List.append_subset.mpr ⟨List.Subset.refl _, List.Subset.refl _⟩)
    (List.append_subset.mpr ⟨List.Subset.refl _, List.Subset.refl _⟩)

/-- Paths lead on to where they led. -/
theorem follow_eq {names : List String} {start : Place} (h : Changes made written t t')
    (hfollow : t.follow start names = .ok place) : t'.follow start names = .ok place := by
  induction names generalizing start with
  | nil => exact hfollow
  | cons name names ih =>
      rw [follow] at hfollow ⊢
      split at hfollow
      · cases hfollow
      · next hstep =>
        obtain ⟨hdirectory, hnext, hname⟩ := step_eq_ok_iff.mp hstep
        have hstep' := step_eq_ok_iff.mpr ⟨h.directory hdirectory, hnext,
          hname.imp_right fun hrest => hrest.imp_right fun htaken => ⟨htaken.1, h.isSome htaken.2⟩⟩
        rw [hstep']
        exact ih hfollow

/-- A file that is not written over is read as before. -/
theorem read_eq {path : String} {bytes : ByteArray} (h : Changes made written t t')
    (hplace : placeOf path ∉ written) (hread : t.read path = .ok bytes) :
    t'.read path = .ok bytes := by
  obtain ⟨hpath, hfollow, hnode⟩ := read_eq_ok_iff.mp hread
  exact read_eq_ok_iff.mpr ⟨hpath, h.follow_eq hfollow, h.node?_eq hplace hnode⟩

end Changes

/-! ## Operations -/

section Operations

variable {t t' : FileTree} {path : String} {bytes : ByteArray}

/-- Putting a node changes what is at its place and nothing else. -/
theorem node?_put {place : Place} (hplace : place ≠ []) (node : Node) (p : Place) :
    (t.put place node).node? p = if p = place then some node else t.node? p := by
  rw [node?, node?, put]
  by_cases hroot : p = []
  · subst hroot
    rw [if_neg hplace.symm]
    rfl
  · have hempty : ¬ p.isEmpty = true := by simpa using hroot
    rw [if_neg hempty, if_neg hempty]
    by_cases hp : p = place
    · rw [if_pos hp, hp, List.lookup_cons_self]
    · rw [if_neg hp, List.lookup_cons, beq_eq_false_iff_ne.mpr hp,
        lookup_filter (fun q => q != place), if_pos (by simpa using hp)]

theorem Spot.place_ne_nil (s : Spot) : s.place ≠ [] := by
  rw [Spot.place]
  exact List.append_ne_nil_of_right_ne_nil _ (List.cons_ne_nil _ _)

/-- Looking fails only over a name that is too long. -/
theorem lookAt_eq_ok_iff {s : Spot} {found : Option Node} :
    t.lookAt s = .ok found ↔ ¬ maxNameBytes < byteSize s.name.toList ∧ t.node? s.place = found := by
  rw [lookAt]
  split
  · next hlong => simp [hlong]
  · next hshort => simp [hshort]

/-- **MAKING A DIRECTORY** puts it where nothing was. -/
theorem changes_of_makeDirectory (h : t.makeDirectory path = .ok t') :
    Changes [placeOf path] [] t t' := by
  rw [makeDirectory] at h
  split at h
  · cases h
  · cases h
  · next s hspot =>
    have hends := endsAt_of_spot hspot
    split at h
    · cases h
    · cases h
    · next hlook =>
      cases h
      intro place
      rw [node?_put s.place_ne_nil]
      -- the one place that is put was free before
      by_cases hplace : place = s.place
      · rw [if_pos hplace, hplace]
        refine Or.inr (Or.inl ⟨?_, (lookAt_eq_ok_iff.mp hlook).2, rfl⟩)
        rw [hends.place_eq]
        exact List.mem_singleton.mpr rfl
      · rw [if_neg hplace]
        exact Or.inl rfl

/-- **WRITING A FILE** puts it at its place, where no directory is, and it is read back. -/
theorem changes_of_write (h : t.write path bytes = .ok t') :
    Changes [] [placeOf path] t t' ∧ t'.read path = .ok bytes := by
  rw [write] at h
  split at h
  · cases h
  · cases h
  · next s hspot =>
    have hends := endsAt_of_spot hspot
    split at h
    · cases h
    · next hslash =>
      split at h
      · cases h
      · cases h
      · next found hfound hlook =>
        cases h
        obtain ⟨hshort, rfl⟩ := lookAt_eq_ok_iff.mp hlook
        have hchanges : Changes [] [placeOf path] t (t.put s.place (.file bytes)) := by
          intro place
          rw [node?_put s.place_ne_nil]
          by_cases hplace : place = s.place
          · rw [if_pos hplace, hplace]
            refine Or.inr (Or.inr ⟨?_, ?_, bytes, rfl⟩)
            · rw [hends.place_eq]
              exact List.mem_singleton.mpr rfl
            · exact fun hdirectory => hfound hdirectory
          · rw [if_neg hplace]
            exact Or.inl rfl
        have hnode : (t.put s.place (.file bytes)).node? s.place = some (.file bytes) := by
          rw [node?_put s.place_ne_nil, if_pos rfl]
        -- the way to the file is as it was, so the path ends at the same spot
        have hends' : (t.put s.place (.file bytes)).EndsAt path s :=
          ⟨hends.fault, hchanges.follow_eq hends.outer, hchanges.directory hends.directory,
            hends.last, hends.proper⟩
        refine ⟨hchanges, read_eq_ok_iff.mpr ⟨⟨hends.fault, by simpa using hslash⟩, ?_, ?_⟩⟩
        · exact hends'.follow_eq hshort (by rw [hnode]; rfl)
        · rw [← hends.place_eq]
          exact hnode

end Operations

end Bindery.FileTree
