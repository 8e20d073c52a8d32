import Bindery.Host.Path
import Bindery.Proofs.Gleam.Owners
import Bindery.Proofs.Gleam.Spelling
import Mathlib.Data.List.Nodup

/-!
# Where the files of a package go

When a package is emitted, its interfaces have module names of their own
(`owners_of_emit`).  Module names and paths determine each other (`modulePath_injective`),
so two files of one package can meet at one path in one way only: the package itself is
named like the module of upcasts.  The walk over the owners does not see that clash, since
both names are taken before it begins.

The headline is `emitted_paths_nodup_iff`.
-/

namespace Bindery.Path

/-- Paths that do not start at the root are told apart from any base. -/
theorem join_inj (base : String) {p q : String}
    (hp : isAbsolute p.toList = false) (hq : isAbsolute q.toList = false) :
    join base p = join base q ↔ p = q := by
  constructor
  · intro h
    have h' : joinChars base.toList p.toList = joinChars base.toList q.toList :=
      String.ofList_injective h
    rw [joinChars, joinChars, hp, hq] at h'
    simp only [Bool.false_eq_true, if_false] at h'
    split at h'
    · exact String.toList_inj.mp (List.append_cancel_left h')
    · exact String.toList_inj.mp (List.cons.inj (List.append_cancel_left h')).2
  · intro h
    rw [h]

end Bindery.Path

namespace Bindery.Gleam

/-! ## Paths -/

/-- A path names one module. -/
theorem modulePath_injective : Function.Injective modulePath := by
  intro m n h
  have h' := congrArg String.toList h
  simp only [modulePath, String.toList_append] at h'
  exact String.toList_inj.mp (List.append_cancel_left (List.append_cancel_right h'))

/-- A path of a module does not start at the root. -/
theorem modulePath_relative (m : String) : Path.isAbsolute (modulePath m).toList = false := by
  simp only [modulePath, String.toList_append, List.append_assoc]
  rfl

@[simp] theorem path_file (m : Module) : m.file.path = modulePath m.name := rfl

@[simp] theorem name_interfaceModule (d : Document) (interface : String) :
    (interfaceModule d interface).name = valueName interface := by
  rw [interfaceModule]

@[simp] theorem name_upcastModule (d : Document) : (upcastModule d).name = upcastModuleName := by
  rw [upcastModule]

@[simp] theorem path_entryPoint (package : String) (ms : List Module) :
    (EntryPoint.ofModules package ms).file.path = modulePath package := rfl

/-- The paths of a package are those of its modules, the entry point being the last. -/
theorem map_path_packageFiles (d : Document) (package : String) :
    (packageFiles d package).map EmittedFile.path
      = (d.entries.keys.map valueName ++ [upcastModuleName, package]).map modulePath := by
  simp [packageFiles_eq, Function.comp_def]

/-- The files of a package are named by names of modules. -/
theorem path_of_emit {d : Document} {package : String} {files : List EmittedFile}
    (h : emit d package = .ok files) {file : EmittedFile} (hfile : file ∈ files) :
    ∃ module, isModuleName module = true ∧ file.path = modulePath module := by
  have hpackage := isModuleName_of_emit h
  obtain ⟨rfl, -, -⟩ := owners_of_emit h
  have hpath : file.path ∈ (packageFiles d package).map EmittedFile.path :=
    List.mem_map_of_mem hfile
  rw [map_path_packageFiles] at hpath
  obtain ⟨module, hmodule, heq⟩ := List.mem_map.mp hpath
  refine ⟨module, ?_, heq.symm⟩
  rcases List.mem_append.mp hmodule with hname | hname
  · obtain ⟨interface, -, rfl⟩ := List.mem_map.mp hname
    exact isModuleName_valueName interface
  · rcases List.mem_cons.mp hname with rfl | hname
    · decide
    · rw [List.mem_singleton.mp hname]
      exact hpackage

/-- Module names that are owned twice are those of the package and of the upcasts only. -/
theorem nodup_moduleNames_iff {names : List String} {package : String}
    (hnodup : names.Nodup)
    (hfree : ∀ name ∈ names, name ≠ upcastModuleName ∧ name ≠ package) :
    (names ++ [upcastModuleName, package]).Nodup ↔ package ≠ upcastModuleName := by
  rw [List.nodup_append]
  -- names of interfaces are apart from the two, so these are left to compare
  constructor
  · rintro ⟨-, hpair, -⟩ heq
    rw [heq] at hpair
    exact (List.nodup_cons.mp hpair).1 (List.mem_singleton.mpr rfl)
  · intro hne
    refine ⟨hnodup, ?_, ?_⟩
    · rw [List.nodup_cons, List.mem_singleton]
      exact ⟨fun heq => hne heq.symm, List.nodup_singleton _⟩
    · intro name hname taken htaken
      rcases List.mem_cons.mp htaken with heq | hmem
      · rw [heq]
        exact (hfree name hname).1
      · rw [List.mem_singleton.mp hmem]
        exact (hfree name hname).2

/-- **ONE PATH, ONE FILE**: the files of a package have different paths, and go to
different places below any directory, exactly when the package is not named like the
module of upcasts. -/
theorem emitted_paths_nodup_iff {d : Document} {package : String} {files : List EmittedFile}
    (h : emit d package = .ok files) (outDir : String) :
    ((files.map EmittedFile.path).Nodup ↔ package ≠ upcastModuleName)
      ∧ ((files.map fun f => Path.join outDir f.path).Nodup ↔ package ≠ upcastModuleName) := by
  obtain ⟨rfl, hnodup, hfree⟩ := owners_of_emit h
  have hnames := nodup_moduleNames_iff hnodup (by
    intro name hname
    obtain ⟨interface, hinterface, rfl⟩ := List.mem_map.mp hname
    exact hfree interface hinterface)
  have hplace : Function.Injective (Path.join outDir ∘ modulePath) := by
    intro m n heq
    exact modulePath_injective
      ((Path.join_inj outDir (modulePath_relative m) (modulePath_relative n)).mp heq)
  refine ⟨?_, ?_⟩
  · rw [map_path_packageFiles, List.nodup_map_iff modulePath_injective]
    exact hnames
  · have hmap := congrArg (List.map (Path.join outDir)) (map_path_packageFiles d package)
    rw [List.map_map, List.map_map] at hmap
    show ((packageFiles d package).map (Path.join outDir ∘ EmittedFile.path)).Nodup ↔ _
    rw [hmap, List.nodup_map_iff hplace]
    exact hnames

/-- A document with two interfaces, the second one below the first. -/
def nodeAndElement : Document :=
  { entries := ⟨[("Node", [.property ⟨"Node", "nodeName", "string", none⟩]), ("HTMLElement", [])],
      by decide⟩
    parents := ⟨[("HTMLElement", ["Node"])], by decide⟩ }

/-- The files of two interfaces in the package `twig` go to four places below `out`. -/
theorem emitted_paths_of_nodeAndElement :
    emit nodeAndElement "twig" = .ok (packageFiles nodeAndElement "twig")
      ∧ ((packageFiles nodeAndElement "twig").map fun f => Path.join "out" f.path).Nodup := by
  have hwalk : checkOwners (firstOwners "twig") nodeAndElement.entries.keys = .ok () := by
    decide +kernel
  have h : emit nodeAndElement "twig" = .ok (packageFiles nodeAndElement "twig") := by
    rw [emit, if_pos (by decide), hwalk]
  exact ⟨h, (emitted_paths_nodup_iff h "out").2.mpr (by decide)⟩

/-- A package named like the module of upcasts: its entry point takes the place of that
module. -/
theorem package_named_upcast_repeats_path :
    ∃ files, emit Document.empty upcastModuleName = .ok files
      ∧ ¬ (files.map EmittedFile.path).Nodup := by
  have hwalk : checkOwners (firstOwners upcastModuleName) Document.empty.entries.keys = .ok () :=
    rfl
  refine ⟨packageFiles Document.empty upcastModuleName, ?_, ?_⟩
  · rw [emit, if_pos (by decide), hwalk]
  · rw [map_path_packageFiles]
    decide

end Bindery.Gleam
