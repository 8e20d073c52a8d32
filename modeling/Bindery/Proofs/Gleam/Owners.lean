import Bindery.Gleam.Emission
import Bindery.Proofs.Document.Codec

/-!
# Owners of module names

Emission walks through the interfaces in the order of the document and gives each the
module name that its name leads to.  The walk succeeds exactly when the interfaces have
module names of their own, apart from those that are taken from the start
(`checkOwners_eq_ok_iff`).

When an interface is dropped from the document, a clash between others stays what it was
(`checkOwners_filter`), and nothing else stays: so emission does not notice that the
interface named like the parents' key is gone exactly if it fails for another reason
(`emit_dropReserved_iff`).
-/

namespace Bindery.Gleam

/-! ## The walk over the owners -/

/-- The walk succeeds exactly when no module name repeats or is owned already. -/
theorem checkOwners_eq_ok_iff (owners : List (String × String)) (names : List String) :
    checkOwners owners names = .ok ()
      ↔ (names.map valueName).Nodup ∧ ∀ name ∈ names, owners.lookup (valueName name) = none := by
  induction names generalizing owners with
  | nil => simp [checkOwners]
  | cons name rest ih =>
      rw [checkOwners]
      rw [List.map_cons, List.nodup_cons, List.forall_mem_cons]
      cases hl : owners.lookup (valueName name) with
      | some first => simp
      | none =>
          -- the rest is looked up among the owners and `name`, the owner of its module now
          simp only [ih, true_and]
          constructor
          · rintro ⟨hnodup, hfree⟩
            refine ⟨⟨?_, hnodup⟩, ?_⟩
            · intro hmem
              obtain ⟨other, hother, heq⟩ := List.mem_map.mp hmem
              have := hfree other hother
              rw [heq, List.lookup_cons_self] at this
              cases this
            · intro other hother
              have := hfree other hother
              rw [List.lookup_cons] at this
              by_cases heq : valueName other == valueName name
              · rw [heq] at this
                cases this
              · rw [Bool.not_eq_true] at heq
                rw [heq] at this
                exact this
          · rintro ⟨⟨hnew, hnodup⟩, hfree⟩
            refine ⟨hnodup, ?_⟩
            intro other hother
            have hne : (valueName other == valueName name) = false := by
              rw [beq_eq_false_iff_ne]
              intro heq
              exact hnew (heq ▸ List.mem_map_of_mem hother)
            rw [List.lookup_cons, hne]
            exact hfree other hother

/-- After a successful walk a package that can name a module is emitted. -/
theorem emit_eq_ok {d : Document} {package : String} (hpackage : isModuleName package = true)
    (hwalk : checkOwners (firstOwners package) d.entries.keys = .ok ()) :
    emit d package = .ok (packageFiles d package) := by
  rw [emit, if_pos hpackage, hwalk]

/-- A document whose interfaces have module names of their own is emitted. -/
theorem emit_of_owners {d : Document} {package : String} (hpackage : isModuleName package = true)
    (hnodup : (d.entries.keys.map valueName).Nodup)
    (hfree : ∀ name ∈ d.entries.keys,
      valueName name ≠ upcastModuleName ∧ valueName name ≠ package) :
    emit d package = .ok (packageFiles d package) := by
  refine emit_eq_ok hpackage ((checkOwners_eq_ok_iff _ _).mpr ⟨hnodup, ?_⟩)
  intro name hname
  rw [List.lookup_eq_none_iff]
  simp only [firstOwners, List.forall_mem_cons, bne_iff_ne]
  exact ⟨(hfree name hname).1, (hfree name hname).2, by simp⟩

/-- A package that is emitted can name a module. -/
theorem isModuleName_of_emit {d : Document} {package : String} {files : List EmittedFile}
    (h : emit d package = .ok files) : isModuleName package = true := by
  rw [emit] at h
  split at h
  · assumption
  · cases h

/-- What a successful walk says of a document: its interfaces have module names of their
own, and none is the name of the module of upcasts or that of the package. -/
theorem owners_of_emit {d : Document} {package : String} {files : List EmittedFile}
    (h : emit d package = .ok files) :
    files = packageFiles d package ∧ (d.entries.keys.map valueName).Nodup
      ∧ ∀ name ∈ d.entries.keys, valueName name ≠ upcastModuleName ∧ valueName name ≠ package := by
  rw [emit] at h
  split at h
  -- the files are the same whatever the owners are, so the check is all there is to split
  · cases hw : checkOwners (firstOwners package) d.entries.keys with
    | error e =>
        rw [hw] at h
        cases h
    | ok u =>
        rw [hw] at h
        obtain ⟨hnodup, hfree⟩ := (checkOwners_eq_ok_iff _ _).mp hw
        have hfiles : Except.ok (packageFiles d package) = Except.ok files := h
        rw [Except.ok.injEq] at hfiles
        refine ⟨hfiles.symm, hnodup, ?_⟩
        intro name hname
        have hl := List.lookup_eq_none_iff.mp (hfree name hname)
        have h1 := hl (upcastModuleName, upcastModuleName) (by simp [firstOwners])
        have h2 := hl (package, package) (by simp [firstOwners])
        exact ⟨by simpa using h1, by simpa using h2⟩
  · cases h

/-! ## Dropping an interface -/

/-- The error names an interface, as one of two owners of a module name. -/
def EmitError.Names (name : String) : EmitError → Prop
  | .invalidPackageName _ => False
  | .moduleClash _ first second => first = name ∨ second = name

/-- The walk ends over clashes only. -/
theorem clash_of_error {owners : List (String × String)} {names : List String}
    {e : EmitError} (h : checkOwners owners names = .error e) :
    ∃ module first second, e = .moduleClash module first second := by
  induction names generalizing owners with
  | nil => cases h
  | cons name rest ih =>
      rw [checkOwners] at h
      cases hl : owners.lookup (valueName name) with
      | some owner =>
          rw [hl] at h
          exact ⟨_, _, _, (Except.error.inj h).symm⟩
      | none =>
          rw [hl] at h
          exact ih h

/-- A clash is between owners that the walk has met. -/
theorem owners_of_clash {owners : List (String × String)} {names : List String}
    {module first second : String}
    (h : checkOwners owners names = .error (.moduleClash module first second)) :
    (first ∈ owners.map Prod.snd ∨ first ∈ names) ∧ second ∈ names := by
  induction names generalizing owners with
  | nil => cases h
  | cons name rest ih =>
      rw [checkOwners] at h
      cases hl : owners.lookup (valueName name) with
      | some owner =>
          rw [hl] at h
          simp only [Except.error.injEq, EmitError.moduleClash.injEq] at h
          obtain ⟨-, rfl, rfl⟩ := h
          obtain ⟨before, after, hsplit, -⟩ := List.lookup_eq_some_iff.mp hl
          refine ⟨Or.inl ?_, List.mem_cons_self⟩
          rw [hsplit]
          simp
      | none =>
          rw [hl] at h
          obtain ⟨hfirst, hsecond⟩ := ih h
          -- the first owner may be `name`, which was met on the way
          refine ⟨?_, List.mem_cons_of_mem _ hsecond⟩
          rw [List.map_cons, List.mem_cons] at hfirst
          rcases hfirst with (rfl | hold) | hmem
          · exact Or.inr List.mem_cons_self
          · exact Or.inl hold
          · exact Or.inr (List.mem_cons_of_mem _ hmem)

/-- What owns a name after some owners are dropped has owned it before. -/
theorem lookup_owners_filter {owners : List (String × String)} {module dropped : String} :
    (owners.lookup module = none →
        (owners.filter fun o => o.2 != dropped).lookup module = none)
      ∧ ∀ first, first ≠ dropped → owners.lookup module = some first →
        (owners.filter fun o => o.2 != dropped).lookup module = some first := by
  induction owners with
  | nil => simp
  | cons o owners ih =>
      obtain ⟨name, owner⟩ := o
      obtain ⟨ihnone, ihsome⟩ := ih
      by_cases hname : module = name
      · subst hname
        constructor
        · intro h
          rw [List.lookup_cons_self] at h
          cases h
        · intro first hfirst h
          rw [List.lookup_cons_self, Option.some.injEq] at h
          subst h
          rw [List.filter_cons_of_pos (by simpa using hfirst), List.lookup_cons_self]
      · have hne : (module == name) = false := beq_eq_false_iff_ne.mpr hname
        -- this owner does not answer, be it kept or dropped
        rw [List.lookup_cons, hne]
        by_cases howner : owner = dropped
        · rw [List.filter_cons_of_neg (by simpa using howner)]
          exact ⟨ihnone, ihsome⟩
        · rw [List.filter_cons_of_pos (by simpa using howner), List.lookup_cons, hne]
          exact ⟨ihnone, ihsome⟩

/-- A clash between other owners is met as before. -/
theorem checkOwners_filter {dropped module first second : String} (hfirst : first ≠ dropped)
    (hsecond : second ≠ dropped) {owners : List (String × String)} {names : List String}
    (h : checkOwners owners names = .error (.moduleClash module first second)) :
    checkOwners (owners.filter fun o => o.2 != dropped) (names.filter fun n => n != dropped)
      = .error (.moduleClash module first second) := by
  induction names generalizing owners with
  | nil => cases h
  | cons name rest ih =>
      rw [checkOwners] at h
      cases hl : owners.lookup (valueName name) with
      | some owner =>
          rw [hl] at h
          simp only [Except.error.injEq, EmitError.moduleClash.injEq] at h
          obtain ⟨rfl, rfl, rfl⟩ := h
          rw [List.filter_cons_of_pos (by simpa using hsecond), checkOwners,
            lookup_owners_filter.2 owner hfirst hl]
      | none =>
          rw [hl] at h
          have hrest := ih h
          by_cases hname : name = dropped
          · -- it has become an owner, and is filtered from the owners
            rw [List.filter_cons_of_neg (by simpa using hname)] at hrest ⊢
            exact hrest
          · rw [List.filter_cons_of_pos (by simpa using hname)] at hrest
            rw [List.filter_cons_of_pos (by simpa using hname), checkOwners,
              lookup_owners_filter.1 hl]
            exact hrest

/-- A name that no package can have is no owner from the start. -/
theorem firstOwners_filter {package : String} (hpackage : isModuleName package = true)
    {dropped : String} (hdropped : isModuleName dropped = false) :
    (firstOwners package).filter (fun o => o.2 != dropped) = firstOwners package := by
  rw [List.filter_eq_self]
  intro o ho
  rw [bne_iff_ne]
  intro heq
  simp only [firstOwners, List.mem_cons, List.not_mem_nil, or_false] at ho
  rcases ho with rfl | rfl
  · rw [← heq] at hdropped
    exact absurd hdropped (by decide)
  · rw [← heq, hpackage] at hdropped
    cases hdropped

/-- A package has a file for each interface, one for the upcasts and the entry point. -/
theorem packageFiles_eq (d : Document) (package : String) :
    packageFiles d package
      = (d.entries.keys.map fun i => (interfaceModule d i).file)
        ++ [(upcastModule d).file, (EntryPoint.ofModules package (modules d)).file] := by
  rw [packageFiles, modules, List.map_append, List.map_map, List.append_assoc]
  rfl

/-- There is a file for each interface, one for the upcasts and one for the package. -/
theorem length_packageFiles (d : Document) (package : String) :
    (packageFiles d package).length = d.entries.keys.length + 2 := by
  rw [packageFiles_eq, List.length_append, List.length_map]
  rfl

theorem keys_dropReserved (d : Document) :
    d.dropReserved.entries.keys = d.entries.keys.filter fun name => name != parentsKey :=
  Keyed.keys_keep d.entries _

/-- What is emitted without that interface does not fail over it. -/
theorem not_names_of_dropReserved {d : Document} {package : String} {e : EmitError}
    (h : emit d.dropReserved package = .error e) : ¬ e.Names parentsKey := by
  rw [emit] at h
  split at h
  · next hpackage =>
    split at h
    · next e' hwalk =>
      obtain rfl : e' = e := Except.error.inj h
      obtain ⟨module, first, second, rfl⟩ := clash_of_error hwalk
      rw [keys_dropReserved,
        ← firstOwners_filter hpackage (show isModuleName parentsKey = false by decide)] at hwalk
      -- so the walk has met that name nowhere, neither as an owner nor on the way
      have howner : ∀ owners : List (String × String),
          parentsKey ∉ (owners.filter fun o => o.2 != parentsKey).map Prod.snd := by
        intro owners hmem
        obtain ⟨o, ho, heq⟩ := List.mem_map.mp hmem
        have := (List.mem_filter.mp ho).2
        rw [heq] at this
        simp at this
      have hkept : parentsKey ∉ d.entries.keys.filter fun name => name != parentsKey := by
        intro hmem
        have := (List.mem_filter.mp hmem).2
        simp at this
      obtain ⟨hfirst, hsecond⟩ := owners_of_clash hwalk
      rintro (rfl | rfl)
      · rcases hfirst with hold | hmem
        · exact howner _ hold
        · exact hkept hmem
      · exact hkept hsecond
    · cases h
  · rw [← Except.error.inj h]
    exact fun hnames => hnames

/-- An error that is not about that interface is met without it as well. -/
theorem emit_dropReserved_of_error {d : Document} {package : String} {e : EmitError}
    (h : emit d package = .error e) (hnames : ¬ e.Names parentsKey) :
    emit d.dropReserved package = .error e := by
  rw [emit] at h ⊢
  split at h
  · next hpackage =>
    rw [if_pos hpackage]
    split at h
    · next e' hwalk =>
      obtain rfl : e' = e := Except.error.inj h
      obtain ⟨module, first, second, rfl⟩ := clash_of_error hwalk
      have hfirst : first ≠ parentsKey := fun heq => hnames (Or.inl heq)
      have hsecond : second ≠ parentsKey := fun heq => hnames (Or.inr heq)
      have hfilter := checkOwners_filter hfirst hsecond hwalk
      rw [firstOwners_filter hpackage (by decide), ← keys_dropReserved] at hfilter
      rw [hfilter]
    · cases h
  · next hpackage =>
    rw [if_neg hpackage]
    exact h

/-- **WHAT EMISSION DOES NOT NOTICE**: without the interface that has the name of the
parents' key a document is emitted as before exactly if there is no such interface, or
emission fails over something else. -/
theorem emit_dropReserved_iff (d : Document) (package : String) :
    emit d.dropReserved package = emit d package
      ↔ (parentsKey ∈ d.entries.keys →
          ∃ e, emit d package = .error e ∧ ¬ e.Names parentsKey) := by
  constructor
  · intro heq hkey
    cases hemit : emit d package with
    | ok files =>
        -- the file of the interface is missing
        rw [hemit] at heq
        have hlength := congrArg List.length
          ((owners_of_emit hemit).1.symm.trans (owners_of_emit heq).1)
        rw [length_packageFiles, length_packageFiles, keys_dropReserved] at hlength
        have hlt : (d.entries.keys.filter fun name => name != parentsKey).length
            < d.entries.keys.length := by
          rw [List.length_filter_lt_length_iff_exists]
          exact ⟨parentsKey, hkey, by simp⟩
        omega
    | error e =>
        rw [hemit] at heq
        exact ⟨e, rfl, not_names_of_dropReserved heq⟩
  · intro h
    by_cases hkey : parentsKey ∈ d.entries.keys
    · obtain ⟨e, hemit, hnames⟩ := h hkey
      rw [hemit]
      exact emit_dropReserved_of_error hemit hnames
    · rw [Document.dropReserved_eq_self hkey]

end Bindery.Gleam
