import Bindery.Proofs.Gleam.PackageOutline

/-!
# The handle of an interface

The module of an interface defines the type of its handle and relies on other types: on those
that it imports, and on those that the declared types of parameters and results become.  Nothing
keeps their names apart.  A declared type resolves to the handle exactly if the handle has the name
of a type that one of the entries comes to (`handle_apart_iff`); an interface `String` with a
method that returns a string has such a handle.
-/

namespace Bindery.Gleam

/-- The type that is named in front; its argument is a handle. -/
def TypeRef.front : TypeRef → String
  | .plain name => name
  | .applied name _ => name

/-- The names of types that an item takes for those of other modules or of the language. -/
def Item.foreignTypes : Item → List String
  | .imported _ types => types
  | .function s => s.types.map TypeRef.front
  | _ => []

/-- The types of the values that an entry takes and gives. -/
def valueTypes : Entry → List ValueType
  | .method m =>
      (m.parameters.map fun p => ValueType.ofText p.typeText) ++ [ValueType.ofText m.returnType]
  | .property p => [ValueType.ofText p.typeText]
  | .event _ => [.unknown, .nil]

/-- The handle of an interface is not named like the type of references, nor like a type that an
entry comes to. -/
structure HandleApart (d : Document) (interface : String) : Prop where
  reference : typeName interface ≠ "JsRef"
  values : ∀ e ∈ rendered d interface, ∀ t ∈ valueTypes e, typeName interface ≠ t.name

section Handles

variable {d : Document} {interface n : String} {fs : List FunctionDef}

/-- A handle with a name of its own is apart, whatever the entries are. -/
theorem handleApart_of_notMem
    (h : typeName interface ∉ ["JsRef", "JsUnknown", "String", "Bool", "Float", "Nil"]) :
    HandleApart d interface := by
  have hapart : ∀ n ∈ ["JsRef", "JsUnknown", "String", "Bool", "Float", "Nil"],
      typeName interface ≠ n := by
    rintro n hn rfl
    exact h hn
  refine ⟨hapart _ List.mem_cons_self, fun _ _ t _ => hapart t.name ?_⟩
  cases t <;> decide

/-- A function takes the handle of its interface, and then the types of its entry. -/
theorem types_functionOfEntry (interface : String) (e : Entry) :
    (functionOfEntry interface e).types
      = handleType interface :: (valueTypes e).map TypeExpr.value := by
  cases e with
  | method m =>
      have hlength : (m.parameters.map fun p => declaredType p.typeText).length
          ≤ (parameterNames [handleParameter] (m.parameters.map Parameter.name)).length := by
        rw [length_parameterNames, List.length_map, List.length_map]
      have hparameters : (methodParameters m.parameters).map Prod.snd
          = (m.parameters.map fun p => ValueType.ofText p.typeText).map TypeExpr.value := by
        rw [methodParameters, List.map_snd_zip hlength, List.map_map]
        rfl
      show handleType interface :: (methodParameters m.parameters).map Prod.snd
        ++ [declaredType m.returnType] = _
      rw [hparameters, valueTypes, List.map_append]
      rfl
  | property p => rfl
  | event p => rfl

/-- A function uses unknown values if its entry has them. -/
theorem unknown_mem_types_iff {e : Entry} :
    .value .unknown ∈ (functionOfEntry interface e).types ↔ .unknown ∈ valueTypes e := by
  rw [types_functionOfEntry, List.mem_cons]
  simp [handleType]

theorem types_signature (f : FunctionDef) : f.signature.types = f.types.map TypeExpr.ref := by
  rw [Signature.types, FunctionDef.types, FunctionDef.signature, List.map_append, List.map_map,
    List.map_map]
  rfl

/-- The types named in front by a function of an interface. -/
theorem foreignTypes_functionOfEntry (interface : String) (e : Entry) :
    (Item.function (functionOfEntry interface e).signature).foreignTypes
      = "JsRef" :: (valueTypes e).map ValueType.name := by
  rw [Item.foreignTypes, types_signature, types_functionOfEntry, List.map_map, List.map_cons,
    List.map_map]
  rfl

/-- The imports that functions need, one by one. -/
theorem mem_importsFor_iff {i : Import} :
    i ∈ importsFor fs
      ↔ (i = ⟨eventModule, []⟩ ∧ ∃ f ∈ fs, f.isListener = true)
        ∨ (i = ⟨handleModule, ["JsRef", "JsUnknown"]⟩ ∧ ∃ f ∈ fs, .value .unknown ∈ f.types)
        ∨ (i = ⟨handleModule, ["JsRef"]⟩ ∧ ¬ ∃ f ∈ fs, .value .unknown ∈ f.types) := by
  have hunknown : (fs.any fun f => f.types.contains (.value .unknown)) = true
      ↔ ∃ f ∈ fs, .value .unknown ∈ f.types := by
    rw [List.any_eq_true]
    simp only [List.contains_iff_mem]
  rw [← hunknown, ← List.any_eq_true, importsFor]
  generalize fs.any FunctionDef.isListener = listens
  generalize (fs.any fun f => f.types.contains (.value .unknown)) = unknown
  cases listens <;> cases unknown <;> simp [ValueType.name]

/-- Functions import the type of references, and that of unknown values if one of them has it. -/
theorem mem_types_importsFor_iff :
    n ∈ (importsFor fs).flatMap Import.types
      ↔ n = "JsRef" ∨ (n = "JsUnknown" ∧ ∃ f ∈ fs, .value .unknown ∈ f.types) := by
  simp only [List.mem_flatMap, mem_importsFor_iff]
  constructor
  · rintro ⟨i, ⟨rfl, -⟩ | ⟨rfl, hunknown⟩ | ⟨rfl, -⟩, hn⟩
    · cases hn
    · rcases List.mem_pair.mp hn with rfl | rfl
      · exact .inl rfl
      · exact .inr ⟨rfl, hunknown⟩
    · exact .inl (List.mem_singleton.mp hn)
  · rintro (rfl | ⟨rfl, hunknown⟩)
    · by_cases hunknown : ∃ f ∈ fs, .value .unknown ∈ f.types
      · exact ⟨_, .inr (.inl ⟨rfl, hunknown⟩), List.mem_cons_self⟩
      · exact ⟨_, .inr (.inr ⟨rfl, hunknown⟩), List.mem_cons_self⟩
    · exact ⟨_, .inr (.inl ⟨rfl, hunknown⟩), by decide⟩

/-- What the module of an interface relies on. -/
theorem mem_foreignTypes_iff :
    n ∈ (interfaceModule d interface).items.flatMap Item.foreignTypes
      ↔ n = "JsRef" ∨ ∃ e ∈ rendered d interface, ∃ t ∈ valueTypes e, n = t.name := by
  have hunknown : (∃ f ∈ (rendered d interface).map (functionOfEntry interface),
        TypeExpr.value .unknown ∈ f.types)
      ↔ ∃ e ∈ rendered d interface, ValueType.unknown ∈ valueTypes e := by
    simp only [List.mem_map, exists_exists_and_eq_and, unknown_mem_types_iff]
  have hfunctions : n ∈ ((rendered d interface).map (functionOfEntry interface)).flatMap
        (fun f => (Item.function f.signature).foreignTypes)
      ↔ ∃ e ∈ rendered d interface, n = "JsRef" ∨ ∃ t ∈ valueTypes e, n = t.name := by
    rw [List.flatMap_map, List.mem_flatMap]
    simp only [foreignTypes_functionOfEntry, List.mem_cons, List.mem_map, eq_comm]
  rw [flatMap_items]
  show n ∈ (importsFor ((rendered d interface).map (functionOfEntry interface))).flatMap
      Import.types ++ [] ++ ((rendered d interface).map (functionOfEntry interface)).flatMap _ ↔ _
  rw [List.append_nil, List.mem_append, mem_types_importsFor_iff, hunknown, hfunctions]
  -- The unknown type comes up twice, with the imports and with the functions, so one side folds
  -- two cases into one.
  constructor
  · rintro ((href | ⟨rfl, e, he, hmem⟩) | ⟨e, he, href | hvalue⟩)
    · exact .inl href
    · exact .inr ⟨e, he, .unknown, hmem, rfl⟩
    · exact .inl href
    · exact .inr ⟨e, he, hvalue⟩
  · rintro (href | ⟨e, he, hvalue⟩)
    · exact .inl (.inl href)
    · exact .inr ⟨e, he, .inr hvalue⟩

end Handles

/-- **WHAT RESOLVES TO THE HANDLE**: the module of an interface defines the type of its handle, and
this is none of the types on which the module relies exactly if the handle has a name of its own
among the types that the entries come to. -/
theorem handle_apart_iff (x : Escapes) {d : Document} {package : String} {files : List EmittedFile}
    (h : emit d package = .ok files) {interface : String} (hmem : interface ∈ d.entries.keys) :
    ∃ f ∈ files, f.path = modulePath (valueName interface)
      ∧ written (interfaceModule d interface).reading = f.contents.toList
      ∧ (NamesInside d interface →
          readSource x f.contents.toList = some (interfaceModule d interface).reading)
      ∧ (outline (interfaceModule d interface).reading).filterMap Item.ownType?
          = [typeName interface]
      ∧ (typeName interface
            ∉ (outline (interfaceModule d interface).reading).flatMap Item.foreignTypes
          ↔ HandleApart d interface) := by
  refine ⟨_, interfaceFile_of_emit h hmem, ?_, written_reading _, readSource_interfaceModule x,
    ?_, ?_⟩
  · rw [path_file, name_interfaceModule]
  · rw [outline_module (isNamed_interfaceModule d interface), ownTypes_items]
    rfl
  · rw [outline_module (isNamed_interfaceModule d interface), mem_foreignTypes_iff, not_or]
    constructor
    · rintro ⟨href, hvalues⟩
      exact ⟨href, fun e he t ht heq => hvalues ⟨e, he, t, ht, heq⟩⟩
    · intro happart
      refine ⟨happart.reference, ?_⟩
      rintro ⟨e, he, t, ht, heq⟩
      exact happart.values e he t ht heq

/-- The handle of a node is a type of its own. -/
theorem handle_apart_of_node :
    emit nodeAndElement "twig" = .ok (packageFiles nodeAndElement "twig")
      ∧ "Node" ∈ nodeAndElement.entries.keys
      ∧ ∃ f ∈ packageFiles nodeAndElement "twig", f.path = modulePath (valueName "Node")
        ∧ written (interfaceModule nodeAndElement "Node").reading = f.contents.toList
        ∧ typeName "Node"
          ∉ (outline (interfaceModule nodeAndElement "Node").reading).flatMap
              Item.foreignTypes := by
  have hemit : emit nodeAndElement "twig" = .ok (packageFiles nodeAndElement "twig") :=
    emit_eq_ok (by decide) (by decide +kernel)
  have happart : HandleApart nodeAndElement "Node" := handleApart_of_notMem (by decide +kernel)
  have hmem : "Node" ∈ nodeAndElement.entries.keys := List.mem_cons_self
  obtain ⟨f, hf, hpath, hwritten, -, -, hiff⟩ := handle_apart_iff shortEscapes hemit hmem
  exact ⟨hemit, hmem, f, hf, hpath, hwritten, hiff.mpr happart⟩

/-- A document with an interface that is named like the type of strings. -/
def stringInterface : Document :=
  { entries := ⟨[("String", [.method (.new "String" "trim" [] "string")])], by decide⟩
    parents := Keyed.empty }

/-- The document is emitted, and the method that returns a string gives the handle. -/
theorem string_resolves_to_handle :
    emit stringInterface "twig" = .ok (packageFiles stringInterface "twig")
      ∧ ∃ f ∈ packageFiles stringInterface "twig", f.path = "src/string.gleam"
        ∧ f.items? shortEscapes = some
          [.imported "webir/js_ref" ["JsRef"], .type "String",
            .function ⟨"trim", [("el", .applied "JsRef" "String")], .plain "String"⟩] := by
  have hemit : emit stringInterface "twig" = .ok (packageFiles stringInterface "twig") :=
    emit_eq_ok (by decide) (by decide +kernel)
  have hrendered : rendered stringInterface "String"
      = [.method (.new "String" "trim" [] "string")] := by
    decide +kernel
  have hnames : NamesInside stringInterface "String" := by
    refine ⟨by decide, ?_, ?_, ?_⟩ <;> rw [hrendered] <;> intro e he
    · obtain rfl : e = .new "String" "trim" [] "string" := by simpa using he
      exact ⟨by decide, by decide⟩
    · cases List.mem_singleton.mp he
    · cases List.mem_singleton.mp he
  have hitems : (interfaceModule stringInterface "String").items
      = [.imported "webir/js_ref" ["JsRef"], .type "String",
        .function ⟨"trim", [("el", .applied "JsRef" "String")], .plain "String"⟩] := by
    decide +kernel
  refine ⟨hemit, _, interfaceFile_of_emit hemit List.mem_cons_self, ?_, ?_⟩
  · decide +kernel
  · rw [items?_interfaceModule shortEscapes hnames, hitems]

end Bindery.Gleam
