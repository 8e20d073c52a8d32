import Bindery.Proofs.Gleam.Outline

/-!
# The outline of a package

The text of a module says what the module imports and defines (`outline_module`), and the text
of an entry point what it imports and re-exports (`outline_entryPoint`).  The modules of a
package come under this: all names in them are words.

The text of the module of upcasts and that of the entry point hold no names in comments and
literals that could end these, so they can always be read
(`items?_upcastModule`, `items?_entryPoint`).
That of the module of an interface can be read if the names in it stay inside
(`items?_interfaceModule`).
-/

namespace Bindery.Gleam

/-! ## The outline of a module -/

/-- The line of an import says what is imported. -/
structure Import.IsRead (i : Import) : Prop where
  inLine : '\n' ∉ i.line.toList
  item : Item.ofTokens (tokens i.line.toList) = some (.imported i.module i.types)

/-- The names in a module. -/
structure Module.IsNamed (m : Module) : Prop where
  imports : ∀ i ∈ m.imports, i.IsRead
  types : ∀ t ∈ m.types, IsName t
  functions : ∀ f ∈ m.functions, f.IsNamed

/-- What a module imports and defines. -/
def Module.items (m : Module) : List Item :=
  m.imports.map (fun i => .imported i.module i.types) ++ m.types.map .type
    ++ m.functions.map fun f => .function f.signature

section Modules

variable {s : String} {t : TypeExpr} {ps : List (String × TypeExpr)} {f : FunctionDef} {m : Module}

theorem newline_notMem_of_isName (h : IsName s) : '\n' ∉ s.toList := by
  intro hmem
  exact absurd (isWordChar_of_isName h '\n' hmem) (by decide)

theorem newline_notMem_type (h : t.IsNamed) : '\n' ∉ t.text.toList := by
  cases t with
  | value t => exact newline_notMem_of_isName (isName_valueType t)
  | handle name => simp [TypeExpr.text, String.toList_append, newline_notMem_of_isName h]

/-- There is no line feed in parameters, whose parts are names. -/
theorem newline_notMem_parameters (h : AreNamed ps) :
    '\n' ∉ (", ".intercalate (ps.map FunctionDef.parameterText)).toList := by
  induction ps with
  | nil => exact List.not_mem_nil
  | cons p ps ih =>
      obtain ⟨hname, htype⟩ := h p List.mem_cons_self
      have hp : '\n' ∉ (FunctionDef.parameterText p).toList := by
        simp [FunctionDef.parameterText, String.toList_append, newline_notMem_of_isName hname,
          newline_notMem_type htype]
      have hrest := ih fun q hq => h q (List.mem_cons_of_mem p hq)
      cases ps with
      | nil =>
          rw [List.map_cons, List.map_nil, String.intercalate_singleton]
          exact hp
      | cons q ps =>
          rw [List.map_cons, List.map_cons, String.intercalate_cons_cons, ← List.map_cons]
          rw [String.toList_append, String.toList_append, List.mem_append, List.mem_append,
            not_or, not_or]
          exact ⟨⟨hp, by decide⟩, hrest⟩

/-- So there is none in the head of a function. -/
theorem newline_notMem_head (h : f.IsNamed) : '\n' ∉ f.head.toList := by
  simp [-String.toList_intercalate, FunctionDef.head, String.toList_append,
    newline_notMem_of_isName h.name, newline_notMem_parameters h.parameters,
    newline_notMem_type h.result]

/-- The lines of a function have no line feeds in their code. -/
theorem newline_notMem_reading (h : f.IsNamed) : ∀ line ∈ f.reading, .code '\n' ∉ line := by
  have hhead := newline_notMem_head h
  intro line hline
  rw [FunctionDef.reading, List.mem_append] at hline
  -- A comment was split at its line feeds before; in the code every part is a name or a fixed
  -- text.
  rcases hline with hcomment | hcode
  · obtain ⟨text, -, rfl⟩ := List.mem_map.mp hcomment
    simp [commentReading]
  · rw [FunctionDef.codeReading] at hcode
    cases hbody : f.body with
    | foreign module symbol =>
        rw [hbody, List.mem_pair] at hcode
        rcases hcode with rfl | rfl
        · simp [attributeReading, mem_codes_iff]
        · rw [mem_codes_iff]
          exact hhead
    | listener event =>
        rw [hbody] at hcode
        simp only [List.mem_cons, List.not_mem_nil, or_false] at hcode
        rcases hcode with rfl | rfl | rfl
        · simp [mem_codes_iff, String.toList_append, hhead]
        · simp [callReading, mem_codes_iff, handleParameter, callbackParameter]
        · simp [mem_codes_iff]

/-- A reading of lines to which comments say nothing reads a function from its code. -/
theorem filterMap_codeReading {α : Type} {read : List Lexeme → Option α}
    (hcomment : ∀ text, read (commentReading text) = none) (f : FunctionDef) :
    f.reading.filterMap read = f.codeReading.filterMap read := by
  have hnone : (f.comment.map commentReading).filterMap read = [] := by
    rw [List.filterMap_eq_nil_iff]
    intro line hline
    obtain ⟨text, -, rfl⟩ := List.mem_map.mp hline
    exact hcomment text
  rw [FunctionDef.reading, List.filterMap_append, hnone, List.nil_append]

/-- Of the lines of a function only its head says something. -/
theorem filterMap_reading (h : f.IsNamed) :
    f.reading.filterMap lineItem? = [.function f.signature] := by
  obtain ⟨hplain, hopen⟩ := ofTokens_head h
  rw [filterMap_codeReading (fun _ => rfl), FunctionDef.codeReading]
  cases f.body with
  | foreign module symbol =>
      have hattribute : lineItem? (attributeReading module symbol) = none := lineItem?_literal _ _ _
      have hhead : lineItem? (codes f.head) = some (.function f.signature) := by
        rw [lineItem?_codes, hplain]
      show [attributeReading module symbol, codes f.head].filterMap lineItem? = _
      rw [List.filterMap_cons_none hattribute, List.filterMap_cons_some hhead]
      rfl
  | listener event =>
      have hcall : lineItem? (callReading event) = none := lineItem?_literal _ _ _
      have hhead : lineItem? (codes (f.head ++ " \x7b")) = some (.function f.signature) := by
        rw [lineItem?_codes, hopen]
      show [codes (f.head ++ " \x7b"), callReading event, codes "\x7d"].filterMap lineItem? = _
      rw [List.filterMap_cons_some hhead, List.filterMap_cons_none hcall]
      rfl

/-- **THE FUNCTIONS** of a module are read, each as its signature. -/
theorem filterMap_readings {fs : List FunctionDef} (h : ∀ f ∈ fs, f.IsNamed) :
    (fs.map FunctionDef.reading).flatten.filterMap lineItem?
      = fs.map fun f => .function f.signature := by
  induction fs with
  | nil => rfl
  | cons f fs ih =>
      rw [List.forall_mem_cons] at h
      rw [List.map_cons, List.flatten_cons, List.filterMap_append, filterMap_reading h.1, ih h.2]
      rfl

/-- The lines of a module have no line feeds in their code. -/
theorem newline_notMem_blockReadings (h : m.IsNamed) :
    ∀ b ∈ m.blockReadings, ∀ line ∈ b, .code '\n' ∉ line := by
  rw [Module.blockReadings]
  simp only [List.forall_mem_cons, List.forall_mem_map, mem_codes_iff]
  refine ⟨?_, fun i hi => (h.imports i hi).inLine, ?_,
    fun f hf => newline_notMem_reading (h.functions f hf)⟩
  · simp
  · intro t ht
    simp [String.toList_append, newline_notMem_of_isName (h.types t ht)]

/-- **THE OUTLINE OF A MODULE**: the text of a module says what the module imports and
defines. -/
theorem outline_module (h : m.IsNamed) : outline m.reading = m.items := by
  have himports := filterMap_lines fun i hi => (h.imports i hi).item
  have htypes := filterMap_lines fun t ht => ofTokens_type (h.types t ht)
  have hfunctions := filterMap_readings h.functions
  rw [Module.reading, outline_blocks (newline_notMem_blockReadings h), Module.blockReadings,
    List.flatten_cons, List.flatten_cons, List.flatten_cons, List.filterMap_append,
    List.filterMap_append, List.filterMap_append, himports, htypes, hfunctions, Module.items,
    List.append_assoc]
  rfl

/-- What is found in a module is found in its imports, its types and its functions. -/
theorem filterMap_items {β : Type} (m : Module) (g : Item → Option β) :
    m.items.filterMap g
      = m.imports.filterMap (fun i => g (.imported i.module i.types))
        ++ m.types.filterMap (fun t => g (.type t))
        ++ m.functions.filterMap fun f => g (.function f.signature) := by
  rw [Module.items, List.filterMap_append, List.filterMap_append, List.filterMap_map,
    List.filterMap_map, List.filterMap_map]
  rfl

/-- Whatever is collected from the items of a module is collected from imports, types and
functions in turn. -/
theorem flatMap_items {β : Type} (m : Module) (g : Item → List β) :
    m.items.flatMap g
      = m.imports.flatMap (fun i => g (.imported i.module i.types))
        ++ m.types.flatMap (fun t => g (.type t))
        ++ m.functions.flatMap fun f => g (.function f.signature) := by
  rw [Module.items, List.flatMap_append, List.flatMap_append, List.flatMap_map, List.flatMap_map,
    List.flatMap_map]

/-- The functions among what a module says are those it defines, and so are the types. -/
theorem signatures_items (m : Module) :
    m.items.filterMap Item.signature? = m.functions.map FunctionDef.signature := by
  simp [filterMap_items, Item.signature?]

/-- The types of a module are those that it defines. -/
theorem ownTypes_items (m : Module) : m.items.filterMap Item.ownType? = m.types := by
  simp [filterMap_items, Item.ownType?]

/-- It imports what is imported. -/
theorem imported_mem_items_iff {module : String} {types : List String} :
    .imported module types ∈ m.items ↔ ⟨module, types⟩ ∈ m.imports := by
  rw [Module.items, List.mem_append, List.mem_append]
  constructor
  · rintro ((himport | htype) | hfunction)
    · obtain ⟨i, hi, heq⟩ := List.mem_map.mp himport
      cases heq
      exact hi
    · obtain ⟨t, -, heq⟩ := List.mem_map.mp htype
      cases heq
    · obtain ⟨f, -, heq⟩ := List.mem_map.mp hfunction
      cases heq
  · intro h
    exact .inl (.inl (List.mem_map.mpr ⟨_, h, rfl⟩))

theorem type_mem_items (h : s ∈ m.types) : .type s ∈ m.items :=
  List.mem_append_left _ (List.mem_append_right _ (List.mem_map_of_mem h))

/-- The types in scope are those that are imported and those that are defined. -/
theorem types_items (m : Module) :
    m.items.flatMap Item.types = m.imports.flatMap Import.types ++ m.types := by
  simp [flatMap_items, Item.types]

end Modules

/-! ## The outline of an entry point -/

namespace EntryPoint

/-- The blocks of an entry point. -/
def blockReadings (p : EntryPoint) : List (List (List Lexeme)) :=
  [[[.comment
      (' ' :: ("Generated entry point re-exporting every " ++ p.name ++ " binding.").toList)]],
   p.imports.map fun m => codes ("import " ++ m), p.types.map fun e => codes (typeLine e),
   p.functions.map fun e => codes (functionLine e)]

/-- What an entry point is meant to be read as. -/
def reading (p : EntryPoint) : List Lexeme :=
  layoutReading (p.blockReadings.filter fun b => !b.isEmpty)

/-- The names in an entry point. -/
structure IsNamed (p : EntryPoint) : Prop where
  name : IsName p.name
  imports : ∀ m ∈ p.imports, IsName m
  types : ∀ e ∈ p.types, IsName e.1 ∧ IsName e.2
  functions : ∀ e ∈ p.functions, IsName e.1 ∧ IsName e.2

/-- What an entry point imports and re-exports. -/
def items (p : EntryPoint) : List Item :=
  p.imports.map (fun m => .imported m []) ++ p.types.map (fun e => .alias e.1 e.2 e.1)
    ++ p.functions.map fun e => .constant e.1 e.2 e.1

end EntryPoint

section EntryPoints

variable {p : EntryPoint}

/-- The reading of an entry point is written as its text. -/
theorem written_entryPoint (p : EntryPoint) : written p.reading = p.text.toList := by
  have hblocks : p.blockReadings.map (·.map lineText) = p.blocks := by
    rw [EntryPoint.blockReadings, EntryPoint.blocks]
    simp only [List.map_cons, List.map_nil, List.map_map, lineText_comment, Function.comp_def,
      lineText_codes, ← String.append_assoc]
    rfl
  rw [EntryPoint.reading, written_blocks, hblocks, EntryPoint.text]

theorem newline_notMem_reExport {name module : String} (hname : IsName name)
    (hmodule : IsName module) : '\n' ∉ reExportChars name module := by
  simp [reExportChars, newline_notMem_of_isName hname, newline_notMem_of_isName hmodule]

/-- **THE OUTLINE OF AN ENTRY POINT**: its text says what it imports and re-exports. -/
theorem outline_entryPoint (h : p.IsNamed) : outline p.reading = p.items := by
  -- A line is an item of its own only if no name on it has a line feed, which the alphabet of
  -- names excludes.
  have hlines : ∀ b ∈ p.blockReadings, ∀ line ∈ b, .code '\n' ∉ line := by
    have himport : ∀ m ∈ p.imports, '\n' ∉ ("import " ++ m).toList := by
      intro m hm
      simp [String.toList_append, newline_notMem_of_isName (h.imports m hm)]
    have htype : ∀ e ∈ p.types, '\n' ∉ (EntryPoint.typeLine e).toList := by
      intro e he
      obtain ⟨hname, hmodule⟩ := h.types e he
      rw [toList_typeLine, List.mem_append, not_or]
      exact ⟨by decide, newline_notMem_reExport hname hmodule⟩
    have hfunction : ∀ e ∈ p.functions, '\n' ∉ (EntryPoint.functionLine e).toList := by
      intro e he
      obtain ⟨hname, hmodule⟩ := h.functions e he
      rw [toList_functionLine, List.mem_append, not_or]
      exact ⟨by decide, newline_notMem_reExport hname hmodule⟩
    rw [EntryPoint.blockReadings]
    simp only [List.forall_mem_cons, List.forall_mem_map, mem_codes_iff]
    exact ⟨by simp, himport, htype, hfunction, by simp⟩
  have hheader : ∀ text, [[Lexeme.comment text]].filterMap lineItem? = [] := fun _ => rfl
  have himports := filterMap_lines fun m hm => ofTokens_importModule (h.imports m hm)
  have htypes := filterMap_lines fun e he => ofTokens_typeLine (h.types e he).1 (h.types e he).2
  have hfunctions := filterMap_lines fun e he =>
    ofTokens_functionLine (h.functions e he).1 (h.functions e he).2
  rw [EntryPoint.reading, outline_blocks hlines, EntryPoint.blockReadings, List.flatten_cons,
    List.flatten_cons, List.flatten_cons, List.flatten_cons, List.filterMap_append,
    List.filterMap_append, List.filterMap_append, List.filterMap_append, hheader, himports, htypes,
    hfunctions, List.flatten_nil, List.filterMap_nil, List.append_nil, List.nil_append,
    EntryPoint.items, List.append_assoc]

/-- An entry point is readable. -/
theorem isReadable_entryPoint (h : p.IsNamed) : isReadable p.reading = true := by
  have hplain : ∀ {s : String}, IsName s → isPlain s = true := fun hs => isPlain_of_isWord hs.word
  -- Import, type and constant lines are fixed texts around names, and names need no escape.
  have himport : ∀ m ∈ p.imports, isLine (codes ("import " ++ m)) = true := by
    intro m hm
    refine isLine_codes ?_
    rw [isPlain_append, hplain (h.imports m hm)]
    rfl
  have htype : ∀ e ∈ p.types, isLine (codes (EntryPoint.typeLine e)) = true := by
    intro e he
    obtain ⟨hname, hmodule⟩ := h.types e he
    refine isLine_codes ?_
    show isPlain ("pub type " ++ e.1 ++ " = " ++ e.2 ++ "." ++ e.1) = true
    simp only [isPlain_append, hplain hname, hplain hmodule]
    rfl
  have hfunction : ∀ e ∈ p.functions, isLine (codes (EntryPoint.functionLine e)) = true := by
    intro e he
    obtain ⟨hname, hmodule⟩ := h.functions e he
    refine isLine_codes ?_
    show isPlain ("pub const " ++ e.1 ++ " = " ++ e.2 ++ "." ++ e.1) = true
    simp only [isPlain_append, hplain hname, hplain hmodule]
    rfl
  have hheader : isLine [.comment (' '
      :: ("Generated entry point re-exporting every " ++ p.name
            ++ " binding.").toList)] = true := by
    refine isLine_comment ?_
    simp [String.toList_append, newline_notMem_of_isName h.name]
  have hlines : ∀ b ∈ p.blockReadings, ∀ line ∈ b, isLine line = true := by
    rw [EntryPoint.blockReadings]
    simp only [List.forall_mem_cons, List.forall_mem_map]
    exact ⟨⟨hheader, by simp⟩, himport, htype, hfunction, by simp⟩
  exact isReadable_layoutReading fun b hb => hlines b (List.mem_filter.mp hb).1

end EntryPoints

/-! ## The modules of a package -/

section Package

variable {d : Document} {package interface : String} {x : Escapes}

theorem isRead_import {m s : String} (hm : IsName m) (hs : IsName s) : Import.IsRead ⟨m, [s]⟩ := by
  refine ⟨?_, ofTokens_import hm hs⟩
  simp [Import.line, String.toList_append, newline_notMem_of_isName hm, newline_notMem_of_isName hs]

theorem isRead_handleImport : Import.IsRead ⟨handleModule, ["JsRef"]⟩ := ⟨by decide, rfl⟩

/-- Every import that functions need is read from its line. -/
theorem isRead_importsFor (functions : List FunctionDef) :
    ∀ i ∈ importsFor functions, i.IsRead := by
  have hunknown : Import.IsRead ⟨handleModule, ["JsRef", ValueType.unknown.name]⟩ :=
    ⟨by decide, rfl⟩
  have hevent : Import.IsRead ⟨eventModule, []⟩ := ⟨by decide, rfl⟩
  rw [importsFor]
  split <;> split <;> simp [isRead_handleImport, hunknown, hevent]

theorem isNamed_functionOfEntry (interface : String) (e : Entry) :
    (functionOfEntry interface e).IsNamed :=
  (isSpelled_functionOfEntry interface e).isNamed

/-- Everything in the module of an interface is named. -/
theorem isNamed_interfaceModule (d : Document) (interface : String) :
    (interfaceModule d interface).IsNamed := by
  refine ⟨isRead_importsFor _, List.forall_mem_singleton.mpr (isName_typeName interface), ?_⟩
  intro f hf
  obtain ⟨e, -, rfl⟩ := List.mem_map.mp hf
  exact isNamed_functionOfEntry interface e

/-- The module of upcasts imports types of handles, and that of references. -/
theorem of_mem_imports_upcastModule {i : Import} (h : i ∈ (upcastModule d).imports) :
    (∃ interface, i = ⟨valueName interface, [typeName interface]⟩)
      ∨ i = ⟨handleModule, ["JsRef"]⟩ := by
  rw [upcastModule] at h
  dsimp only at h
  split at h
  · cases h
  · rcases List.mem_append.mp h with h | h
    · obtain ⟨interface, -, rfl⟩ := List.mem_map.mp h
      exact .inl ⟨interface, rfl⟩
    · exact .inr (List.mem_singleton.mp h)

/-- So is everything in the module of upcasts. -/
theorem isNamed_upcastModule (d : Document) : (upcastModule d).IsNamed := by
  refine ⟨?_, ?_, ?_⟩
  · intro i hi
    rcases of_mem_imports_upcastModule hi with ⟨interface, rfl⟩ | rfl
    · exact isRead_import (isName_valueName interface) (isName_typeName interface)
    · exact isRead_handleImport
  · intro t ht
    obtain ⟨ancestor, -, rfl⟩ := List.mem_map.mp ((firsts_sublist id _).subset ht)
    exact isName_typeName ancestor
  · intro f hf
    obtain ⟨pair, -, rfl⟩ := List.mem_map.mp hf
    exact (isSpelled_upcastFunction pair).isNamed

/-- The text of the module of upcasts can be read, whatever the interfaces are named. -/
theorem readSource_upcastModule (x : Escapes) (d : Document) :
    readSource x (upcastModule d).text.toList = some (upcastModule d).reading := by
  -- A cast names a fixed module and symbol, so here nothing of the input stands inside a literal.
  have himport : ∀ i ∈ (upcastModule d).imports, isLine (codes i.line) = true := by
    intro i hi
    rcases of_mem_imports_upcastModule hi with ⟨interface, rfl⟩ | rfl
    · refine isLine_codes ?_
      simp only [Import.line, List.map_cons, List.map_nil, String.intercalate_singleton,
        isPlain_append, isPlain_of_isWord (isWord_valueName interface),
        isPlain_of_isWord (isWord_typeName interface)]
      rfl
    · decide
  have htype : ∀ t ∈ (upcastModule d).types, isLine (codes ("pub type " ++ t)) = true := by
    intro t ht
    refine isLine_codes ?_
    rw [isPlain_append, isPlain_of_isWord ((isNamed_upcastModule d).types t ht).word]
    rfl
  have hfunction : ∀ f ∈ (upcastModule d).functions, ∀ line ∈ f.reading, isLine line = true := by
    intro f hf
    obtain ⟨pair, -, rfl⟩ := List.mem_map.mp hf
    have hplain := (isSpelled_upcastFunction pair).isPlain
    have hmodule : StaysInside handleModule := ⟨by decide, by decide⟩
    exact isLine_foreign rfl hplain hmodule (by decide)
  have hcomment : '\n' ∉ ' ' :: (upcastModule d).comment.toList := by
    rw [upcastModule]
    dsimp only
    decide
  rw [← written_reading]
  refine readSource_written (isReadable_reading ?_)
  rw [Module.blockReadings]
  simp only [List.forall_mem_cons, List.forall_mem_map]
  exact ⟨⟨isLine_comment hcomment, by simp⟩, himport, htype, hfunction⟩

/-- The text of the module of an interface can be read if its names stay inside. -/
theorem readSource_interfaceModule (x : Escapes) (h : NamesInside d interface) :
    readSource x (interfaceModule d interface).text.toList
      = some (interfaceModule d interface).reading := by
  rw [← written_reading]
  exact readSource_written (isReadable_interfaceModule h)

/-- What is exported under a name is defined in a module. -/
theorem of_mem_exported {names : Module → List String} {ms : List Module} {e : String × String}
    (h : e ∈ EntryPoint.exported names ms) : ∃ m ∈ ms, e.1 ∈ names m ∧ e.2 = m.name := by
  obtain ⟨m, hm, he⟩ := List.mem_flatMap.mp ((firsts_sublist _ _).subset h)
  obtain ⟨s, hs, rfl⟩ := List.mem_map.mp he
  exact ⟨m, hm, hs, rfl⟩

/-- Modules in which all is named are re-exported by names. -/
theorem isNamed_entryPoint {ms : List Module} (hpackage : IsName package)
    (hms : ∀ m ∈ ms, IsName m.name ∧ m.IsNamed) : (EntryPoint.ofModules package ms).IsNamed := by
  have hexported : ∀ names : Module → List String, (∀ m ∈ ms, ∀ s ∈ names m, IsName s) →
      ∀ e ∈ EntryPoint.exported names ms, IsName e.1 ∧ IsName e.2 := by
    intro names hnames e he
    obtain ⟨m, hm, hname, hmodule⟩ := of_mem_exported he
    rw [hmodule]
    exact ⟨hnames m hm e.1 hname, (hms m hm).1⟩
  refine ⟨hpackage, ?_, ?_, ?_⟩
  · intro name hname
    obtain ⟨m, hm, rfl⟩ := List.mem_map.mp (List.mem_mergeSort.mp hname)
    exact (hms m hm).1
  · exact hexported _ fun m hm => (hms m hm).2.types
  · refine hexported _ fun m hm s hs => ?_
    obtain ⟨f, hf, rfl⟩ := List.mem_map.mp hs
    exact ((hms m hm).2.functions f hf).name

theorem isName_upcastModuleName : IsName upcastModuleName := ⟨by decide, by decide⟩

/-- All names in the modules of a package are words. -/
theorem isNamed_modules (d : Document) : ∀ m ∈ modules d, IsName m.name ∧ m.IsNamed := by
  intro m hm
  rcases List.mem_append.mp hm with hm | hm
  · obtain ⟨interface, -, rfl⟩ := List.mem_map.mp hm
    rw [name_interfaceModule]
    exact ⟨isName_valueName interface, isNamed_interfaceModule d interface⟩
  · rw [List.mem_singleton.mp hm, name_upcastModule]
    exact ⟨isName_upcastModuleName, isNamed_upcastModule d⟩

end Package

/-! ## The files of a package -/

/-- What a file says, if it can be read. -/
def EmittedFile.items? (x : Escapes) (f : EmittedFile) : Option (List Item) :=
  (readSource x f.contents.toList).map outline

section Files

variable {d : Document} {package interface : String} {files : List EmittedFile}

/-- So the file of upcasts is read as its items: no name of the document stands in a
literal there. -/
theorem items?_upcastModule (x : Escapes) (d : Document) :
    (upcastModule d).file.items? x = some (upcastModule d).items := by
  rw [EmittedFile.items?, Module.file, readSource_upcastModule, Option.map_some,
    outline_module (isNamed_upcastModule d)]

/-- **THE FILE OF AN INTERFACE** is read as its items, if its names stay inside. -/
theorem items?_interfaceModule (x : Escapes) (h : NamesInside d interface) :
    (interfaceModule d interface).file.items? x = some (interfaceModule d interface).items := by
  rw [EmittedFile.items?, Module.file, readSource_interfaceModule x h, Option.map_some,
    outline_module (isNamed_interfaceModule d interface)]

/-- The text of the entry point can be read, whatever the interfaces are named. -/
theorem readSource_entryPoint (x : Escapes) (d : Document) (hpackage : IsName package) :
    readSource x (EntryPoint.ofModules package (modules d)).text.toList
      = some (EntryPoint.ofModules package (modules d)).reading := by
  rw [← written_entryPoint]
  exact readSource_written (isReadable_entryPoint (isNamed_entryPoint hpackage (isNamed_modules d)))

/-- The file of a package is read as its items, if the package has a name. -/
theorem items?_entryPoint (x : Escapes) (d : Document) (hpackage : IsName package) :
    (EntryPoint.ofModules package (modules d)).file.items? x
      = some (EntryPoint.ofModules package (modules d)).items := by
  rw [EmittedFile.items?, EntryPoint.file, readSource_entryPoint x d hpackage, Option.map_some,
    outline_entryPoint (isNamed_entryPoint hpackage (isNamed_modules d))]

/-- The file of the upcasts stands behind those of the interfaces. -/
theorem upcastFile_of_emit (h : emit d package = .ok files) :
    files[d.entries.keys.length]? = some (upcastModule d).file := by
  obtain ⟨rfl, -, -⟩ := owners_of_emit h
  rw [packageFiles_eq, List.getElem?_append_right (by rw [List.length_map]), List.length_map,
    Nat.sub_self]
  rfl

/-- Each interface has its file. -/
theorem interfaceFile_of_emit (h : emit d package = .ok files) (hmem : interface ∈ d.entries.keys) :
    (interfaceModule d interface).file ∈ files := by
  obtain ⟨rfl, -, -⟩ := owners_of_emit h
  rw [packageFiles_eq]
  exact List.mem_append_left _ (List.mem_map_of_mem hmem)

end Files

end Bindery.Gleam
