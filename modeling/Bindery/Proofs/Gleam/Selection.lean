import Bindery.Proofs.Extraction.Restriction
import Bindery.Proofs.Gleam.Inheritance
import Bindery.Proofs.Gleam.Paths

/-!
# Emitting a part of an extraction

Bindings can be made for some interfaces only.  The module of an interface reads the entries
along its ancestors, so the selection must have with an interface those of its ancestors that
have entries.  Then its module is what it is in the whole package, and it stands at the same
path (`emit_restrict`): restricting keeps the ancestors, and no interface gets in the way of
one that is kept.
-/

namespace Bindery.Gleam

/-! ## The file of an interface -/

/-- The files of a package that stand at a path. -/
def filesAt (path : String) (files : List EmittedFile) : List EmittedFile :=
  files.filter fun f => f.path == path

/-- At the path of an interface stands its module, and nothing else. -/
theorem filesAt_of_emit {d : Document} {package i : String} {files : List EmittedFile}
    (h : emit d package = .ok files) (hi : i ∈ d.entries.keys) :
    filesAt (modulePath (valueName i)) files = [(interfaceModule d i).file] := by
  obtain ⟨rfl, hnodup, hfree⟩ := owners_of_emit h
  have hinterfaces : (d.entries.keys.map fun j => (interfaceModule d j).file).filter
      (fun f => f.path == modulePath (valueName i)) = [(interfaceModule d i).file] := by
    -- an interface with this path has this module name, so it is `i`
    have hsame : ∀ j ∈ d.entries.keys,
        ((interfaceModule d j).file.path == modulePath (valueName i)) = (j == i) := by
      intro j hj
      rw [path_file, name_interfaceModule, Bool.eq_iff_iff, beq_iff_eq, beq_iff_eq,
        modulePath_injective.eq_iff]
      exact ⟨fun heq => List.inj_on_of_nodup_map hnodup hj hi heq, fun heq => by rw [heq]⟩
    have hcount : d.entries.keys.count i = 1 := List.count_eq_one_of_mem hnodup.of_map hi
    have hself : d.entries.keys.filter (· == i) = [i] := by
      rw [List.filter_beq, hcount]
      rfl
    rw [List.filter_map, ← List.map_singleton (f := fun j => (interfaceModule d j).file), ← hself]
    exact congrArg _ (List.filter_congr hsame)
  have hothers : [(upcastModule d).file, (EntryPoint.ofModules package (modules d)).file].filter
      (fun f => f.path == modulePath (valueName i)) = [] := by
    have hne := hfree i hi
    rw [List.filter_eq_nil_iff, List.forall_mem_cons, List.forall_mem_singleton, path_file,
      name_upcastModule, path_entryPoint, beq_iff_eq, beq_iff_eq, modulePath_injective.eq_iff,
      modulePath_injective.eq_iff]
    exact ⟨fun heq => hne.1 heq.symm, fun heq => hne.2 heq.symm⟩
  rw [filesAt, packageFiles_eq, List.filter_append, hinterfaces, hothers]
  rfl

/-! ## Selections -/

section Selections

variable {x : Extraction} {selected : List String} {i : String}

/-- The selection has those ancestors of its interfaces that have entries. -/
def HasAncestors (x : Extraction) (selected : List String) : Prop :=
  ∀ s ∈ selected, ∀ a ∈ x.document.parents.ancestors s, a ∈ x.document.entries.keys →
    a ∈ selected

instance (x : Extraction) (selected : List String) : Decidable (HasAncestors x selected) :=
  inferInstanceAs (Decidable (∀ s ∈ selected, ∀ a ∈ x.document.parents.ancestors s,
    a ∈ x.document.entries.keys → a ∈ selected))

/-- What is kept has the entries that it had, and what has none is not missed. -/
theorem entriesOf_restrict (hne : selected ≠ [])
    (hi : i ∈ x.document.entries.keys → i ∈ selected) :
    (x.restrict selected).document.entries.entriesOf i = x.document.entries.entriesOf i := by
  rw [EntryTable.entriesOf, EntryTable.entriesOf, Extraction.entries_restrict x hne,
    Keyed.get?_keep]
  by_cases hmem : i ∈ x.document.entries.keys
  · rw [if_pos (List.contains_iff_mem.mpr (hi hmem))]
  · rw [(Keyed.get?_eq_none_iff _ _).mpr hmem, ite_self]

/-- A selected interface has its own and its inherited entries as before. -/
theorem entriesAlong_restrict (hne : selected ≠ []) (hselected : HasAncestors x selected)
    (hi : i ∈ selected) :
    (x.restrict selected).document.entriesAlong i = x.document.entriesAlong i := by
  rw [Document.entriesAlong, Document.entriesAlong, Extraction.ancestors_restrict x hne hi]
  refine List.flatMap_congr fun a ha => entriesOf_restrict hne fun hkey => ?_
  rcases List.mem_cons.mp ha with rfl | hancestor
  · exact hi
  · exact hselected i hi a hancestor hkey

theorem mem_keys_restrict (hne : selected ≠ []) :
    i ∈ (x.restrict selected).document.entries.keys
      ↔ i ∈ x.document.entries.keys ∧ i ∈ selected := by
  rw [Extraction.entries_restrict x hne, Keyed.keys_keep, List.mem_filter,
    List.contains_iff_mem]

/-- What is emitted as a whole is emitted in part. -/
theorem emit_restrict_eq_ok {package : String} {files : List EmittedFile}
    (h : emit x.document package = .ok files) (hne : selected ≠ []) :
    emit (x.restrict selected).document package
      = .ok (packageFiles (x.restrict selected).document package) := by
  obtain ⟨-, hnodup, hfree⟩ := owners_of_emit h
  refine emit_of_owners (isModuleName_of_emit h) ?_ ?_
  · refine hnodup.sublist (List.Sublist.map valueName ?_)
    rw [Extraction.entries_restrict x hne, Keyed.keys_keep]
    exact List.filter_sublist
  · intro j hj
    exact hfree j ((mem_keys_restrict hne).mp hj).1

end Selections

/-- **A PART LIKE THE WHOLE**: if an extraction is emitted, so is what it is restricted to; and
if the selection has the ancestors with entries that its interfaces have, the file at the path
of a selected interface is in both packages the same. -/
theorem emit_restrict {x : Extraction} {package : String} {files : List EmittedFile}
    {selected : List String} (h : emit x.document package = .ok files) (hne : selected ≠ [])
    (hselected : HasAncestors x selected) :
    ∃ kept, emit (x.restrict selected).document package = .ok kept
      ∧ ∀ i ∈ x.document.entries.keys, i ∈ selected →
        ∃ f, f.path = modulePath (valueName i) ∧ f = (interfaceModule x.document i).file
          ∧ filesAt f.path files = [f] ∧ filesAt f.path kept = [f] := by
  have hkept := emit_restrict_eq_ok h hne
  refine ⟨_, hkept, ?_⟩
  intro i hi hmem
  have hpath : (interfaceModule x.document i).file.path = modulePath (valueName i) := by
    rw [path_file, name_interfaceModule]
  have hmodule : interfaceModule (x.restrict selected).document i = interfaceModule x.document i :=
    interfaceModule_congr (entriesAlong_restrict hne hselected hmem)
  refine ⟨_, hpath, rfl, ?_, ?_⟩
  · rw [hpath]
    exact filesAt_of_emit h hi
  · rw [hpath, filesAt_of_emit hkept ((mem_keys_restrict hne).mpr ⟨hi, hmem⟩), hmodule]

/-- The module of elements is the same in a package for elements and nodes only. -/
theorem emit_restrict_tangled :
    emit Extraction.tangled.document "twig"
        = .ok (packageFiles Extraction.tangled.document "twig")
      ∧ ["Element", "Node"] ≠ ([] : List String)
      ∧ HasAncestors Extraction.tangled ["Element", "Node"]
      ∧ ∃ kept f, emit (Extraction.tangled.restrict ["Element", "Node"]).document "twig" = .ok kept
        ∧ f.path = "src/element.gleam"
        ∧ filesAt f.path (packageFiles Extraction.tangled.document "twig") = [f]
        ∧ filesAt f.path kept = [f] := by
  have hemit : emit Extraction.tangled.document "twig"
      = .ok (packageFiles Extraction.tangled.document "twig") :=
    emit_eq_ok (by decide) (by decide +kernel)
  have hne : ["Element", "Node"] ≠ ([] : List String) := List.cons_ne_nil _ _
  have hselected : HasAncestors Extraction.tangled ["Element", "Node"] := by decide +kernel
  obtain ⟨kept, hkept, hfiles⟩ := emit_restrict hemit hne hselected
  obtain ⟨f, hpath, -, hwhole, hpart⟩ := hfiles "Element" (by decide) (by decide)
  have helement : modulePath (valueName "Element") = "src/element.gleam" := by decide +kernel
  exact ⟨hemit, hne, hselected, kept, f, hkept, hpath.trans helement, hwhole, hpart⟩

end Bindery.Gleam
