import Bindery.Proofs.Gleam.Clashes
import Bindery.Proofs.Gleam.PackageOutline
import Bindery.Proofs.Program.Gated

/-!
# The identifiers of a package

The names that a document brings along are any texts.  Before they become names of modules, of
functions, of parameters or of types they go through `valueName` and `typeName`, and what comes out
of these is spelled as it has to be.  So everything that the texts of a package import, define and
re-export is spelled like that (`isSpelled_items`, `EntryPoint.isSpelled_items`), and its files are
named by names of modules, which lead to no other place than the one meant for sources
(`Plan.placeIn_eq`).  This is the headline `emitted_identifiers`.
-/

namespace Bindery.Gleam

open Text FileTree

/-! ## Spelled items -/

/-- Whether the parts of a path of a module are names of modules. -/
def isModulePath (path : String) : Bool :=
  (splitWhere (· == '/') path.toList).all fun part => isModuleName (String.ofList part)

/-- The names in a type that is read are names of types. -/
def TypeRef.IsSpelled : TypeRef → Prop
  | .plain name => isTypeName name = true
  | .applied name argument => isTypeName name = true ∧ isTypeName argument = true

/-- The names in the head of a function that is read are names of values and of types. -/
structure Signature.IsSpelled (s : Signature) : Prop where
  name : isModuleName s.name = true
  parameters : ∀ p ∈ s.parameters, isModuleName p.1 = true ∧ p.2.IsSpelled
  result : s.result.IsSpelled

/-- The names in an item are spelled as its kind wants them: modules and functions like values,
types like types. -/
def Item.IsSpelled : Item → Prop
  | .imported module types => isModulePath module = true ∧ ∀ t ∈ types, isTypeName t = true
  | .type name => isTypeName name = true
  | .alias name module source =>
      isTypeName name = true ∧ isModuleName module = true ∧ isTypeName source = true
  | .constant name module source =>
      isModuleName name = true ∧ isModuleName module = true ∧ isModuleName source = true
  | .function s => s.IsSpelled

/-- The names in a module are names of modules, of values and of types. -/
structure Module.IsSpelled (m : Module) : Prop where
  name : isModuleName m.name = true
  imports : ∀ i ∈ m.imports, isModulePath i.module = true ∧ ∀ t ∈ i.types, isTypeName t = true
  types : ∀ t ∈ m.types, isTypeName t = true
  functions : ∀ f ∈ m.functions, f.IsSpelled

section Items

variable {package name : String} {t : TypeExpr} {f : FunctionDef} {m : Module} {ms : List Module}

/-- A name of a module is a path of one part. -/
theorem isModulePath_of_isModuleName (h : isModuleName name = true) : isModulePath name = true := by
  have hpart : splitWhere (· == '/') (name.toList ++ []) = [name.toList ++ []] :=
    splitWhere_append (notSlash_of_isModuleName h) rfl
  rw [List.append_nil] at hpart
  rw [isModulePath, hpart, List.all_cons, List.all_nil, String.ofList_toList, h]
  rfl

theorem isSpelled_ref (h : t.IsSpelled) : t.ref.IsSpelled := by
  cases t with
  | value t =>
      have hvalues : ∀ t : ValueType, isTypeName t.name = true := by
        intro t
        cases t <;> decide
      exact hvalues t
  | handle name => exact ⟨by decide, h⟩

/-- The signature of a function is spelled of what its head is. -/
theorem isSpelled_signature (h : f.IsSpelled) : f.signature.IsSpelled := by
  refine ⟨h.name, ?_, isSpelled_ref h.result⟩
  intro q hq
  obtain ⟨p, hp, rfl⟩ := List.mem_map.mp hq
  obtain ⟨hname, htype⟩ := h.parameters p hp
  exact ⟨hname, isSpelled_ref htype⟩

/-- What a module imports and defines is spelled like the names in it. -/
theorem isSpelled_items (h : m.IsSpelled) : ∀ i ∈ m.items, i.IsSpelled := by
  intro i hi
  rw [Module.items, List.mem_append, List.mem_append] at hi
  rcases hi with (himport | htype) | hfunction
  · obtain ⟨i, hi, rfl⟩ := List.mem_map.mp himport
    exact h.imports i hi
  · obtain ⟨t, ht, rfl⟩ := List.mem_map.mp htype
    exact h.types t ht
  · obtain ⟨f, hf, rfl⟩ := List.mem_map.mp hfunction
    exact isSpelled_signature (h.functions f hf)

/-- What an entry point imports and re-exports is spelled like the names in the modules. -/
theorem EntryPoint.isSpelled_items (hms : ∀ m ∈ ms, m.IsSpelled) :
    ∀ i ∈ (EntryPoint.ofModules package ms).items, i.IsSpelled := by
  intro i hi
  rw [EntryPoint.items, List.mem_append, List.mem_append] at hi
  rcases hi with (himport | htype) | hfunction
  · obtain ⟨module, hmodule, rfl⟩ := List.mem_map.mp himport
    obtain ⟨m, hm, rfl⟩ := List.mem_map.mp (List.mem_mergeSort.mp hmodule)
    exact ⟨isModulePath_of_isModuleName (hms m hm).name, List.forall_mem_nil _⟩
  · obtain ⟨e, he, rfl⟩ := List.mem_map.mp htype
    obtain ⟨m, hm, hname, hmodule⟩ := of_mem_exported he
    have htype := (hms m hm).types e.1 hname
    exact ⟨htype, hmodule ▸ (hms m hm).name, htype⟩
  · obtain ⟨e, he, rfl⟩ := List.mem_map.mp hfunction
    obtain ⟨m, hm, hname, hmodule⟩ := of_mem_exported he
    obtain ⟨f, hf, heq⟩ := List.mem_map.mp hname
    have hfunction : isModuleName e.1 = true := heq ▸ ((hms m hm).functions f hf).name
    exact ⟨hfunction, hmodule ▸ (hms m hm).name, hfunction⟩

end Items

/-! ## The modules of a package -/

section Modules

variable {d : Document} {package interface : String} {m : Module}

/-- Every identifier in the module of an interface is spelled in full. -/
theorem isSpelled_interfaceModule (d : Document) (interface : String) :
    (interfaceModule d interface).IsSpelled := by
  refine ⟨?_, ?_, ?_, ?_⟩
  · rw [name_interfaceModule]
    exact isModuleName_valueName interface
  · show ∀ i ∈ importsFor (interfaceModule d interface).functions, _
    rw [importsFor]
    split <;> split <;> decide
  · exact List.forall_mem_singleton.mpr (isTypeName_typeName interface)
  · intro f hf
    obtain ⟨e, -, rfl⟩ := List.mem_map.mp hf
    exact isSpelled_functionOfEntry interface e

/-- So is every identifier in the module of upcasts. -/
theorem isSpelled_upcastModule (d : Document) : (upcastModule d).IsSpelled := by
  refine ⟨?_, ?_, ?_, ?_⟩
  · rw [name_upcastModule]
    decide
  · intro i hi
    rcases of_mem_imports_upcastModule hi with ⟨interface, rfl⟩ | rfl
    · dsimp only
      exact ⟨isModulePath_of_isModuleName (isModuleName_valueName interface),
        List.forall_mem_singleton.mpr (isTypeName_typeName interface)⟩
    · decide
  · intro t ht
    obtain ⟨ancestor, -, rfl⟩ := List.mem_map.mp ((firsts_sublist id _).subset ht)
    exact isTypeName_typeName ancestor
  · intro f hf
    obtain ⟨pair, -, rfl⟩ := List.mem_map.mp hf
    exact isSpelled_upcastFunction pair

/-- **ANY DOCUMENT GIVES NAMES**: whatever the interfaces and entries of a document are named, the
names in its modules are spelled as they have to be. -/
theorem isSpelled_modules (d : Document) : ∀ m ∈ modules d, m.IsSpelled := by
  intro m hm
  rcases List.mem_append.mp hm with hm | hm
  · obtain ⟨interface, -, rfl⟩ := List.mem_map.mp hm
    exact isSpelled_interfaceModule d interface
  · rw [List.mem_singleton.mp hm]
    exact isSpelled_upcastModule d

/-- What the files of a package are meant to be read as, in order. -/
def packageReadings (d : Document) (package : String) : List (List Lexeme) :=
  (modules d).map Module.reading ++ [(EntryPoint.ofModules package (modules d)).reading]

/-- The readings of a package are written as its files are. -/
theorem map_written_packageReadings (d : Document) (package : String) :
    (packageReadings d package).map written
      = (packageFiles d package).map fun f => f.contents.toList := by
  rw [packageReadings, packageFiles, List.map_append, List.map_append, List.map_map, List.map_map,
    List.map_singleton, List.map_singleton, written_entryPoint]
  refine congrArg (· ++ _) (List.map_congr_left fun m _ => ?_)
  exact written_reading m

/-- With names that stay inside all files of a package are read as they are meant. -/
theorem map_readSource_packageFiles (x : Escapes) (hpackage : isModuleName package = true)
    (h : ∀ interface ∈ d.entries.keys, NamesInside d interface) :
    (packageFiles d package).map (fun f => readSource x f.contents.toList)
      = (packageReadings d package).map some := by
  have hentry := readSource_entryPoint x d (isName_of_isModuleName hpackage)
  have hmodules : ∀ m ∈ modules d, readSource x m.text.toList = some m.reading := by
    intro m hm
    rcases List.mem_append.mp hm with hm | hm
    · obtain ⟨interface, hinterface, rfl⟩ := List.mem_map.mp hm
      exact readSource_interfaceModule x (h interface hinterface)
    · rw [List.mem_singleton.mp hm]
      exact readSource_upcastModule x d
  rw [packageReadings, packageFiles, List.map_append, List.map_append, List.map_map, List.map_map,
    List.map_singleton, List.map_singleton]
  refine congr (congrArg _ (List.map_congr_left hmodules)) ?_
  exact congrArg (fun r => [r]) hentry

/-- What the files of a package are meant to say is spelled as it has to be. -/
theorem isSpelled_outline (hpackage : isModuleName package = true) :
    ∀ ls ∈ packageReadings d package, ∀ i ∈ outline ls, i.IsSpelled := by
  intro ls hls
  rcases List.mem_append.mp hls with hmodule | hentry
  · obtain ⟨m, hm, rfl⟩ := List.mem_map.mp hmodule
    rw [outline_module (isNamed_modules d m hm).2]
    exact isSpelled_items (isSpelled_modules d m hm)
  · rw [List.mem_singleton.mp hentry, outline_entryPoint
      (isNamed_entryPoint (isName_of_isModuleName hpackage) (isNamed_modules d))]
    exact EntryPoint.isSpelled_items (isSpelled_modules d)

/-- The packages that are refused are those that are not spelled like names of modules. -/
theorem emit_invalidPackageName_iff :
    emit d package = .error (.invalidPackageName package) ↔ valueName package ≠ package := by
  rw [ne_eq, valueName_eq_self_iff, Bool.not_eq_true]
  constructor
  · intro herror
    exact exists_invalidPackageName_iff.mp ⟨package, herror⟩
  · exact emit_of_not_isModuleName

end Modules

/-! ## The headline -/

/-- **THE IDENTIFIERS OF A PACKAGE**: `valueName` takes any text to a name of a module, keeps just
the texts that are such names, and these are the packages that are not refused; `typeName` takes any
text to a name of a type.  So all files that are emitted go to the place for sources below the
directory of the bindings, and all that their texts import, define and re-export is spelled as it
has to be. -/
theorem emitted_identifiers (x : Escapes) :
    (∀ s : String, isModuleName (valueName s) = true
        ∧ (valueName s = s ↔ isModuleName s = true)
        ∧ valueName (valueName s) = valueName s
        ∧ (∀ d, emit d s = .error (.invalidPackageName s) ↔ valueName s ≠ s)
        ∧ isTypeName (typeName s) = true)
      ∧ ∀ (d : Document) (package : String) (files : List EmittedFile),
          emit d package = .ok files →
          (∀ f ∈ files, ∃ module, isModuleName module = true ∧ f.path = modulePath module
              ∧ ∀ outDir, Plan.placeIn outDir f = placeOf outDir ++ ["src", module ++ ".gleam"])
            ∧ (packageReadings d package).map written = files.map (fun f => f.contents.toList)
            ∧ (∀ ls ∈ packageReadings d package, ∀ i ∈ outline ls, i.IsSpelled)
            ∧ ((∀ interface ∈ d.entries.keys, NamesInside d interface) →
                files.map (fun f => readSource x f.contents.toList)
                  = (packageReadings d package).map some) := by
  refine ⟨?_, ?_⟩
  · intro s
    exact ⟨isModuleName_valueName s, valueName_eq_self_iff, valueName_valueName s,
      fun _ => emit_invalidPackageName_iff, isTypeName_typeName s⟩
  · intro d package files h
    have hpackage := isModuleName_of_emit h
    have hpaths : ∀ f ∈ files, ∃ module, isModuleName module = true ∧ f.path = modulePath module
        ∧ ∀ outDir, Plan.placeIn outDir f = placeOf outDir ++ ["src", module ++ ".gleam"] := by
      intro f hf
      obtain ⟨module, hmodule, hpath⟩ := path_of_emit h hf
      exact ⟨module, hmodule, hpath, fun _ => Plan.placeIn_eq hmodule hpath⟩
    obtain ⟨rfl, -, -⟩ := owners_of_emit h
    exact ⟨hpaths, map_written_packageReadings d package, isSpelled_outline hpackage,
      map_readSource_packageFiles x hpackage⟩

/-- The identifiers in the package of two interfaces. -/
theorem emitted_identifiers_of_nodeAndElement :
    emit nodeAndElement "twig" = .ok (packageFiles nodeAndElement "twig")
      ∧ (∀ f ∈ packageFiles nodeAndElement "twig", ∃ module, isModuleName module = true
          ∧ Plan.placeIn "/out" f = ["out", "src", module ++ ".gleam"]
          ∧ ∃ ls, readSource shortEscapes f.contents.toList = some ls
            ∧ ∀ i ∈ outline ls, i.IsSpelled) := by
  have hemit : emit nodeAndElement "twig" = .ok (packageFiles nodeAndElement "twig") :=
    emit_eq_ok (by decide) (by decide +kernel)
  have hnames :
      ∀ interface ∈ nodeAndElement.entries.keys, NamesInside nodeAndElement interface := by
    decide +kernel
  have hout : placeOf "/out" = ["out"] := by decide +kernel
  obtain ⟨-, hfiles⟩ := emitted_identifiers shortEscapes
  obtain ⟨hpaths, -, hspelled, hread⟩ := hfiles nodeAndElement "twig" _ hemit
  refine ⟨hemit, fun f hf => ?_⟩
  obtain ⟨module, hmodule, -, hplace⟩ := hpaths f hf
  have hmem := List.mem_map_of_mem (f := fun f => readSource shortEscapes f.contents.toList) hf
  rw [hread hnames] at hmem
  obtain ⟨ls, hls, hreads⟩ := List.mem_map.mp hmem
  refine ⟨module, hmodule, ?_, ls, hreads.symm, hspelled ls hls⟩
  rw [hplace, hout]
  rfl

end Bindery.Gleam
