import Bindery.Proofs.Distinct
import Bindery.Proofs.Gleam.PackageOutline
import Mathlib.Data.String.Basic

/-!
# The entry point of a package

The entry point of a package imports the other modules and re-exports what they define.  It is
measured against what these modules say (`IsEntryPoint`): each import is a module besides the entry
point, each re-export is the first definition of its name, and none is missing.

What the entry point is made from are names in tables and no texts, so the tables have to match the
texts (`reExports_of_exported`).  The one thing to go wrong is the name of the package: a package
that is named like the module of upcasts imports itself (`entryPoint_iff`).
-/

namespace Bindery.Gleam

open Text

/-! ## What an entry point is -/

/-- The module that an item imports, without any types. -/
def Item.module? : Item → Option String
  | .imported module [] => some module
  | _ => none

/-- A re-exported type, with its module and its name there. -/
def Item.alias? : Item → Option (String × String × String)
  | .alias name module source => some (name, module, source)
  | _ => none

/-- A re-exported function, with its module and its name there. -/
def Item.constant? : Item → Option (String × String × String)
  | .constant name module source => some (name, module, source)
  | _ => none

/-- The types that items define. -/
def typeNames (items : List Item) : List String := items.filterMap Item.ownType?

/-- The functions that items define. -/
def functionNames (items : List Item) : List String :=
  (items.filterMap Item.signature?).map Signature.name

/-- What modules are meant to say, each under the path of its file. -/
def outlines (ms : List Module) : List (String × List Item) :=
  ms.map fun m => (modulePath m.name, outline m.reading)

/-- The re-exports are the first definitions of names among the outlines: one for each name. -/
structure ReExports (others : List (String × List Item)) (defined : List Item → List String)
    (es : List (String × String × String)) : Prop where
  once : (es.map Prod.fst).Nodup
  first : ∀ name module source, (name, module, source) ∈ es ↔
    source = name
      ∧ ∃ items, others.find? (fun o => (defined o.2).contains name)
          = some (modulePath module, items)

/-- The entry point of a package next to the outlines of the other files: it imports the other
modules, each once and in ascending order, re-exports the first definition of each name, and says
nothing else. -/
structure IsEntryPoint (package : String) (others : List (String × List Item))
    (items : List Item) : Prop where
  ascending : (items.filterMap Item.module?).Pairwise (· < ·)
  imports : ∀ m, m ∈ items.filterMap Item.module? ↔
    m ≠ package ∧ modulePath m ∈ others.map Prod.fst
  types : ReExports others typeNames (items.filterMap Item.alias?)
  functions : ReExports others functionNames (items.filterMap Item.constant?)
  nothingElse : ∀ i ∈ items, i.module?.isSome ∨ i.alias?.isSome ∨ i.constant?.isSome

section Exports

variable {d : Document} {package name : String} {ms : List Module} {m : Module}

/-- Sorted names ascend strictly if they are different. -/
theorem pairwise_sorted {names : List String} (h : names.Nodup) :
    (sorted names).Pairwise (· < ·) := by
  have hle : (sorted names).Pairwise fun a b => decide (a ≤ b) = true := by
    refine List.pairwise_mergeSort ?_ ?_ names
    · intro a b c hab hbc
      exact decide_eq_true (le_trans (of_decide_eq_true hab) (of_decide_eq_true hbc))
    · intro a b
      simp only [Bool.or_eq_true, decide_eq_true_eq]
      exact le_total a b
  have hnodup : (sorted names).Nodup := (List.mergeSort_perm _ _).nodup_iff.mpr h
  refine (hle.and hnodup).imp ?_
  rintro a b ⟨hab, hne⟩
  exact lt_of_le_of_ne (of_decide_eq_true hab) hne

/-- What is exported under a name is found in the first module that defines it. -/
theorem find?_exported (names : Module → List String) (ms : List Module) (name : String) :
    (ms.flatMap fun m => (names m).map fun n => (n, m.name)).find? (fun e => e.1 == name)
      = (ms.find? fun m => (names m).contains name).map fun m => (name, m.name) := by
  -- within one module the first pair of a name is there as soon as the module has the name
  have hinside : ∀ m : Module, ((names m).map fun n => (n, m.name)).find? (fun e => e.1 == name)
      = if (names m).contains name then some (name, m.name) else none := by
    intro m
    induction names m with
    | nil => rfl
    | cons n rest ih =>
        rw [List.map_cons, List.find?_cons, List.contains_cons]
        by_cases heq : n = name
        · simp [heq]
        · have hne : (n == name) = false := beq_eq_false_iff_ne.mpr heq
          have hne' : (name == n) = false := beq_eq_false_iff_ne.mpr fun h => heq h.symm
          rw [hne, hne', Bool.false_or]
          exact ih
  induction ms with
  | nil => rfl
  | cons m rest ih =>
      rw [List.flatMap_cons, List.find?_append, ih, hinside, List.find?_cons]
      by_cases hdef : (names m).contains name = true
      · rw [if_pos hdef, hdef]
        rfl
      · rw [if_neg hdef, Bool.not_eq_true _ |>.mp hdef]
        rfl

/-- A name is exported from the first module that has it. -/
theorem mem_exported_iff (names : Module → List String) (ms : List Module) (e : String × String) :
    e ∈ EntryPoint.exported names ms
      ↔ ∃ m, ms.find? (fun m => (names m).contains e.1) = some m ∧ m.name = e.2 := by
  rw [EntryPoint.exported, mem_firsts_iff, find?_exported, Option.map_eq_some_iff]
  constructor
  · rintro ⟨m, hfind, heq⟩
    exact ⟨m, hfind, congrArg Prod.snd heq⟩
  · rintro ⟨m, hfind, heq⟩
    exact ⟨m, hfind, by rw [heq]⟩

/-- Modules in which all is named say what they import and define. -/
theorem outlines_eq (hms : ∀ m ∈ ms, m.IsNamed) :
    outlines ms = ms.map fun m => (modulePath m.name, m.items) := by
  refine List.map_congr_left fun m hm => ?_
  rw [outline_module (hms m hm)]

/-- **TABLES AND TEXTS**: what is exported from tables are the first definitions in the texts, if
the tables name what the texts define. -/
theorem reExports_of_exported {names : Module → List String} {defined : List Item → List String}
    (hms : ∀ m ∈ ms, m.IsNamed) (hdefined : ∀ m : Module, defined m.items = names m) :
    ReExports (outlines ms) defined
      ((EntryPoint.exported names ms).map fun e => (e.1, e.2, e.1)) := by
  refine ⟨?_, ?_⟩
  · rw [List.map_map]
    exact nodup_firsts Prod.fst _
  · intro name module source
    -- The outlines are searched by path and the modules by name, and a path is that of one name
    -- only.
    have hfind : (outlines ms).find? (fun o => (defined o.2).contains name)
        = (ms.find? fun m => (names m).contains name).map
            fun m => (modulePath m.name, m.items) := by
      rw [outlines_eq hms, List.find?_map]
      simp only [Function.comp_def, hdefined]
    rw [hfind, List.mem_map]
    constructor
    · rintro ⟨e, he, heq⟩
      obtain ⟨rfl, rfl, rfl⟩ : e.1 = name ∧ e.2 = module ∧ e.1 = source := by simpa using heq
      obtain ⟨m, hm, hname⟩ := (mem_exported_iff names ms e).mp he
      refine ⟨rfl, m.items, ?_⟩
      rw [hm, ← hname]
      rfl
    · rintro ⟨rfl, items, hsome⟩
      obtain ⟨m, hm, heq⟩ := Option.map_eq_some_iff.mp hsome
      have hname : m.name = module := modulePath_injective (congrArg Prod.fst heq)
      exact ⟨(source, module), (mem_exported_iff names ms _).mpr ⟨m, hm, hname⟩, rfl⟩

/-! ## What the entry point says -/

theorem functionNames_items (m : Module) :
    functionNames m.items = m.functions.map FunctionDef.name := by
  rw [functionNames, signatures_items, List.map_map]
  rfl

/-- What is found in an entry point is found in its imports and its re-exports. -/
theorem EntryPoint.filterMap_items {β : Type} (p : EntryPoint) (g : Item → Option β) :
    p.items.filterMap g
      = p.imports.filterMap (fun m => g (.imported m []))
        ++ p.types.filterMap (fun e => g (.alias e.1 e.2 e.1))
        ++ p.functions.filterMap fun e => g (.constant e.1 e.2 e.1) := by
  rw [EntryPoint.items, List.filterMap_append, List.filterMap_append, List.filterMap_map,
    List.filterMap_map, List.filterMap_map]
  rfl

theorem modules_items (p : EntryPoint) : p.items.filterMap Item.module? = p.imports := by
  simp [EntryPoint.filterMap_items, Item.module?]

theorem aliases_items (p : EntryPoint) :
    p.items.filterMap Item.alias? = p.types.map fun e => (e.1, e.2, e.1) := by
  simp [EntryPoint.filterMap_items, Item.alias?]

theorem constants_items (p : EntryPoint) :
    p.items.filterMap Item.constant? = p.functions.map fun e => (e.1, e.2, e.1) := by
  simp [EntryPoint.filterMap_items, Item.constant?]

/-- An entry point has imports, aliases and constants, and nothing else. -/
theorem nothingElse_items (p : EntryPoint) :
    ∀ i ∈ p.items, i.module?.isSome ∨ i.alias?.isSome ∨ i.constant?.isSome := by
  intro i hi
  rcases List.mem_append.mp hi with hi | hconstant
  · rcases List.mem_append.mp hi with himport | halias
    · obtain ⟨m, -, rfl⟩ := List.mem_map.mp himport
      exact .inl rfl
    · obtain ⟨e, -, rfl⟩ := List.mem_map.mp halias
      exact .inr (.inl rfl)
  · obtain ⟨e, -, rfl⟩ := List.mem_map.mp hconstant
    exact .inr (.inr rfl)

/-- The modules are named after the interfaces, and the one of upcasts comes last. -/
theorem map_name_modules (d : Document) :
    (modules d).map Module.name = d.entries.keys.map valueName ++ [upcastModuleName] := by
  simp [modules, Function.comp_def]

/-- The entry point over modules with different names is one, unless it is named like one of
them. -/
theorem isEntryPoint_iff (hms : ∀ m ∈ ms, m.IsNamed) (hnodup : (ms.map Module.name).Nodup) :
    IsEntryPoint package (outlines ms) (EntryPoint.ofModules package ms).items
      ↔ package ∉ ms.map Module.name := by
  have hmem : ∀ m, m ∈ (EntryPoint.ofModules package ms).items.filterMap Item.module?
      ↔ m ∈ ms.map Module.name := by
    intro m
    rw [modules_items]
    exact List.mem_mergeSort
  have hpath : ∀ m, modulePath m ∈ (outlines ms).map Prod.fst ↔ m ∈ ms.map Module.name := by
    intro m
    have hpaths : (outlines ms).map Prod.fst = (ms.map Module.name).map modulePath := by
      rw [outlines, List.map_map, List.map_map]
      rfl
    rw [hpaths, List.mem_map_of_injective modulePath_injective]
  -- Importing itself is the one condition that can fail: the entry point imports every module,
  -- its own name included.
  constructor
  · intro h hpackage
    exact ((h.imports package).mp ((hmem package).mpr hpackage)).1 rfl
  · intro hpackage
    refine ⟨?_, ?_, ?_, ?_, nothingElse_items _⟩
    · rw [modules_items]
      exact pairwise_sorted hnodup
    · intro m
      rw [hmem, hpath]
      refine ⟨fun h => ⟨?_, h⟩, And.right⟩
      rintro rfl
      exact hpackage h
    · rw [aliases_items]
      exact reExports_of_exported hms ownTypes_items
    · rw [constants_items]
      exact reExports_of_exported hms functionNames_items

end Exports

/-! ## The headline -/

/-- **THE ENTRY POINT**: behind the other modules a package has its entry point.  It imports these
modules and no others, each once and in ascending order, and re-exports the first definition of
each name in them, exactly if the package is not named like the module of upcasts. -/
theorem entryPoint_iff (x : Escapes) {d : Document} {package : String} {files : List EmittedFile}
    (h : emit d package = .ok files) :
    ∃ last items, files = (modules d).map Module.file ++ [last] ∧ last.path = modulePath package
      ∧ last.items? x = some items
      ∧ (∀ m ∈ modules d, written m.reading = m.file.contents.toList)
      ∧ ((∀ interface ∈ d.entries.keys, NamesInside d interface) →
          ∀ m ∈ modules d, m.file.items? x = some (outline m.reading))
      ∧ (IsEntryPoint package (outlines (modules d)) items ↔ package ≠ upcastModuleName) := by
  have hpackage := isName_of_isModuleName (isModuleName_of_emit h)
  obtain ⟨rfl, hnodup, hfree⟩ := owners_of_emit h
  have hnamed : ∀ m ∈ modules d, m.IsNamed := fun m hm => (isNamed_modules d m hm).2
  have hnames : ((modules d).map Module.name).Nodup := by
    rw [map_name_modules, List.nodup_append]
    refine ⟨hnodup, List.nodup_singleton _, ?_⟩
    intro name hname taken htaken
    obtain ⟨interface, hinterface, rfl⟩ := List.mem_map.mp hname
    rw [List.mem_singleton.mp htaken]
    exact (hfree interface hinterface).1
  -- no interface has the name of the package, since the owners were checked; only the module of
  -- casts is exempt
  have hupcast : package ∉ (modules d).map Module.name ↔ package ≠ upcastModuleName := by
    rw [map_name_modules, List.mem_append, List.mem_singleton, not_or]
    refine ⟨And.right, fun hne => ⟨?_, hne⟩⟩
    intro hname
    obtain ⟨interface, hinterface, heq⟩ := List.mem_map.mp hname
    exact (hfree interface hinterface).2 heq
  refine ⟨_, _, rfl, rfl, items?_entryPoint x d hpackage, fun m _ => written_reading m, ?_,
    (isEntryPoint_iff hnamed hnames).trans hupcast⟩
  intro hinside m hm
  rw [outline_module (hnamed m hm)]
  rcases List.mem_append.mp hm with hm | hm
  · obtain ⟨interface, hinterface, rfl⟩ := List.mem_map.mp hm
    exact items?_interfaceModule x (hinside interface hinterface)
  · rw [List.mem_singleton.mp hm]
    exact items?_upcastModule x d

/-- The entry point of two interfaces. -/
theorem entryPoint_of_nodeAndElement :
    emit nodeAndElement "twig" = .ok (packageFiles nodeAndElement "twig")
      ∧ ∃ last items, packageFiles nodeAndElement "twig"
          = (modules nodeAndElement).map Module.file ++ [last]
        ∧ last.items? shortEscapes = some items
        ∧ IsEntryPoint "twig" (outlines (modules nodeAndElement)) items := by
  have hemit : emit nodeAndElement "twig" = .ok (packageFiles nodeAndElement "twig") :=
    emit_eq_ok (by decide) (by decide +kernel)
  obtain ⟨last, items, hfiles, -, hitems, -, -, hiff⟩ := entryPoint_iff shortEscapes hemit
  exact ⟨hemit, last, items, hfiles, hitems, hiff.mpr (by decide)⟩

/-- A package named like the module of upcasts: its entry point imports itself. -/
theorem package_named_upcast_imports_itself :
    emit nodeAndElement upcastModuleName = .ok (packageFiles nodeAndElement upcastModuleName)
      ∧ ∃ last items, (packageFiles nodeAndElement upcastModuleName)[3]? = some last
        ∧ last.path = modulePath upcastModuleName ∧ last.items? shortEscapes = some items
        ∧ .imported upcastModuleName [] ∈ items := by
  have hemit : emit nodeAndElement upcastModuleName
      = .ok (packageFiles nodeAndElement upcastModuleName) :=
    emit_eq_ok (by decide) (by decide +kernel)
  refine ⟨hemit, _, _, rfl, rfl, items?_entryPoint shortEscapes nodeAndElement
    isName_upcastModuleName, ?_⟩
  refine List.mem_append_left _ (List.mem_append_left _ (List.mem_map_of_mem ?_))
  refine List.mem_mergeSort.mpr (List.mem_map.mpr ⟨upcastModule nodeAndElement, ?_, ?_⟩)
  · exact List.mem_append_right _ List.mem_cons_self
  · exact name_upcastModule nodeAndElement

end Bindery.Gleam
