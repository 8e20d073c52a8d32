import Bindery.Proofs.Distinct
import Bindery.Proofs.Gleam.EntryPoints
import Bindery.Proofs.Gleam.Handles

/-!
# The functions of an interface

Entries with different names may come to one name of a function, so the merged entries of an
interface are thinned out once more when they are printed: an entry is rendered if it is the first
one to come to its name (`IsRendered`).

What a function is bound to stands in a line next to its head, in literals.  The definitions of a
text are its heads, each taken together with that line (`definitions`).

Going through the entries one after the other one keeps flags for what has to be imported.  They
tell at any time what the functions so far need (`Rendering.Reflects.step`), so the module that is
printed behind the loop is that of the interface (`Rendering.toModule_foldl`).

The headline `emitted_functions` says that this module defines one function for each rendered
entry, in their order and bound to the interface, and that what it imports is what the rendered
entries need.
-/

namespace Bindery.Gleam

open Text

/-! ## Definitions -/

/-- A function as it is defined in a text: its head, and what it does. -/
structure Definition where
  signature : Signature
  body : FunctionBody
  deriving Repr, DecidableEq

/-- A line that belongs to the definition of a function. -/
inductive Clause where
  /-- The attribute that names the host function and the one that stands for it. -/
  | attribute (module symbol : String)
  | head (signature : Signature)
  /-- The call that registers a listener. -/
  | call (event : String)
  deriving Repr, DecidableEq

/-- What a part denotes if it is a literal. -/
def Lexeme.literal? : Lexeme → Option String
  | .literal text => some (String.ofList text)
  | _ => none

/-- What the literals of a line denote. -/
def literals (line : List Lexeme) : List String := line.filterMap Lexeme.literal?

/-- What a line says of a function. -/
def clause? (line : List Lexeme) : Option Clause :=
  match literals line with
  | [] => ((lineItem? line).bind Item.signature?).map .head
  | [event] => if line = callReading event then some (.call event) else none
  | [module, symbol] =>
      if line = attributeReading module symbol then some (.attribute module symbol) else none
  | _ => none

/-- The definitions that clauses make up: a head has its attribute in front of it or its call
behind it. -/
def bindClauses : List Clause → List Definition
  | .attribute module symbol :: .head s :: rest => ⟨s, .foreign module symbol⟩ :: bindClauses rest
  | .head s :: .call event :: rest => ⟨s, .listener event⟩ :: bindClauses rest
  | _ :: rest => bindClauses rest
  | [] => []

/-- The functions that a text defines. -/
def definitions (ls : List Lexeme) : List Definition := bindClauses (readLines clause? ls)

namespace FunctionDef

/-- The definition that a function is printed as. -/
def definition (f : FunctionDef) : Definition := ⟨f.signature, f.body⟩

/-- The clauses that a function is printed as. -/
def clauses (f : FunctionDef) : List Clause :=
  match f.body with
  | .foreign module symbol => [.attribute module symbol, .head f.signature]
  | .listener event => [.head f.signature, .call event]

end FunctionDef

section Clauses

variable {f : FunctionDef} {m : Module} {fs : List FunctionDef} {s : String}

theorem literals_append (ls ms : List Lexeme) : literals (ls ++ ms) = literals ls ++ literals ms :=
  List.filterMap_append

theorem literals_literal (s : String) (ls : List Lexeme) :
    literals (.literal s.toList :: ls) = s :: literals ls := by
  have hdenotes : (Lexeme.literal s.toList).literal? = some s := by
    rw [Lexeme.literal?, String.ofList_toList]
  rw [literals, List.filterMap_cons_some hdenotes, literals]

theorem literals_codes (s : String) : literals (codes s) = [] := by
  rw [literals, codes, List.filterMap_map, List.filterMap_eq_nil_iff]
  intro c _
  rfl

/-- A line of code is a head if it says that there is a function. -/
theorem clause?_codes (s : String) :
    clause? (codes s) = ((Item.ofTokens (tokens s.toList)).bind Item.signature?).map .head := by
  rw [clause?, literals_codes, lineItem?_codes]

/-- The line over a host function is read as what it names. -/
theorem clause?_attribute (module symbol : String) :
    clause? (attributeReading module symbol) = some (.attribute module symbol) := by
  have hliterals : literals (attributeReading module symbol) = [module, symbol] := by
    rw [attributeReading, literals_append, literals_codes, literals_literal, literals_append,
      literals_codes, literals_literal, literals_codes]
    rfl
  rw [clause?, hliterals]
  exact if_pos rfl

/-- The line that adds a listener is read as the event it names. -/
theorem clause?_call (event : String) : clause? (callReading event) = some (.call event) := by
  have hliterals : literals (callReading event) = [event] := by
    rw [callReading, literals_append, literals_codes, literals_literal, literals_codes]
    rfl
  rw [clause?, hliterals]
  exact if_pos rfl

/-- The lines of a function are its clauses; its comment adds none. -/
theorem filterMap_clause?_reading (h : f.IsNamed) : f.reading.filterMap clause? = f.clauses := by
  obtain ⟨hplain, hopen⟩ := ofTokens_head h
  -- a line of a comment is no clause, so only the code below it counts
  rw [filterMap_codeReading (fun _ => rfl), FunctionDef.codeReading, FunctionDef.clauses]
  cases f.body with
  | foreign module symbol =>
      have hhead : clause? (codes f.head) = some (.head f.signature) := by
        rw [clause?_codes, hplain]
        rfl
      show [attributeReading module symbol, codes f.head].filterMap clause? = _
      rw [List.filterMap_cons_some (clause?_attribute module symbol),
        List.filterMap_cons_some hhead, List.filterMap_nil]
  | listener event =>
      have hhead : clause? (codes (f.head ++ " \x7b")) = some (.head f.signature) := by
        rw [clause?_codes, hopen]
        rfl
      have hclose : clause? (codes "\x7d") = none := rfl
      show [codes (f.head ++ " \x7b"), callReading event, codes "\x7d"].filterMap clause? = _
      rw [List.filterMap_cons_some hhead, List.filterMap_cons_some (clause?_call event),
        List.filterMap_cons_none hclose, List.filterMap_nil]

/-- The clauses of a function make up its definition, whatever comes behind. -/
theorem bindClauses_append (f : FunctionDef) (rest : List Clause) :
    bindClauses (f.clauses ++ rest) = f.definition :: bindClauses rest := by
  rw [FunctionDef.clauses, FunctionDef.definition]
  cases f.body with
  | foreign module symbol => rfl
  | listener event => rfl

/-- **THE RUN** over all functions of a module: each is bound by its own lines, in order. -/
theorem bindClauses_readings (h : ∀ f ∈ fs, f.IsNamed) :
    bindClauses ((fs.map FunctionDef.reading).flatten.filterMap clause?)
      = fs.map FunctionDef.definition := by
  induction fs with
  | nil => rfl
  | cons f fs ih =>
      rw [List.forall_mem_cons] at h
      -- the clauses of one function make up its definition before those of the next are looked at
      rw [List.map_cons, List.flatten_cons, List.filterMap_append, filterMap_clause?_reading h.1,
        bindClauses_append, ih h.2, List.map_cons]

/-- **THE DEFINITIONS OF A MODULE**: the text of a module defines the functions of the module, each
with what it does. -/
theorem definitions_module (h : m.IsNamed) :
    definitions m.reading = m.functions.map FunctionDef.definition := by
  have himports : (m.imports.map fun i => codes i.line).filterMap clause? = [] := by
    rw [List.filterMap_map, List.filterMap_eq_nil_iff]
    intro i hi
    rw [Function.comp_apply, clause?_codes, (h.imports i hi).item]
    rfl
  have htypes : (m.types.map fun t => codes ("pub type " ++ t)).filterMap clause? = [] := by
    rw [List.filterMap_map, List.filterMap_eq_nil_iff]
    intro t ht
    rw [Function.comp_apply, clause?_codes, ofTokens_type (h.types t ht)]
    rfl
  rw [definitions, Module.reading, readLines_blocks rfl (newline_notMem_blockReadings h),
    Module.blockReadings, List.flatten_cons, List.flatten_cons, List.flatten_cons,
    List.filterMap_append, List.filterMap_append, List.filterMap_append, himports, htypes]
  exact bindClauses_readings h.functions

end Clauses

/-! ## What a module is meant to define and import -/

/-- Of the merged entries of the interface this is the first one that comes to the name of its
function. -/
def IsRendered (d : Document) (interface : String) (e : Entry) : Prop :=
  (d.mergedEntries interface).find? (fun o => valueName o.name == valueName e.name) = some e

/-- The function is that of the entry: it has the name and the types of the entry, takes the handle
of the interface first, and is bound to the host function of that interface or, for an event, to
the event. -/
structure Defines (interface : String) (e : Entry) (f : Definition) : Prop where
  name : f.signature.name = valueName e.name
  handle : f.signature.parameters.head?
    = some (handleParameter, .applied "JsRef" (typeName interface))
  types : f.signature.types
    = .applied "JsRef" (typeName interface) :: (valueTypes e).map fun t => .plain t.name
  host : (∀ p, e ≠ .event p) → f.body = .foreign (interface ++ "." ++ e.name) (valueName e.name)
  event : ∀ p, e = .event p → f.body = .listener (Naming.event p.name)

/-- The text has the functions of the interface: one for each name to which the merged entries
come, in the order in which the names first come up, and each is that of the first entry of its
name. -/
structure HasFunctions (d : Document) (interface : String) (ls : List Lexeme) : Prop where
  names : functionNames (outline ls)
    = ((d.mergedEntries interface).map fun e => valueName e.name).eraseDups
  once : (functionNames (outline ls)).Nodup
  bound : (definitions ls).map Definition.signature = (outline ls).filterMap Item.signature?
  entries : ∀ f ∈ definitions ls, ∃ e, IsRendered d interface e ∧ Defines interface e f

/-- The declared type has no counterpart. -/
def IsUnknown (typeText : String) : Prop := ValueType.ofText typeText = .unknown

/-- The function of the entry takes or gives values that cannot be looked into. -/
def UsesUnknown : Entry → Prop
  | .method m => (∃ p ∈ m.parameters, IsUnknown p.typeText) ∨ IsUnknown m.returnType
  | .property p => IsUnknown p.typeText
  | .event _ => True

/-- The text imports the module that registers listeners if an event is rendered, the type of
unknown values if a rendered entry uses it, and besides these only the type of references. -/
structure HasImports (d : Document) (interface : String) (ls : List Lexeme) : Prop where
  event : (∃ types, .imported eventModule types ∈ outline ls)
    ↔ ∃ p, IsRendered d interface (.event p)
  unknown : (∃ module types, .imported module types ∈ outline ls ∧ "JsUnknown" ∈ types)
    ↔ ∃ e, IsRendered d interface e ∧ UsesUnknown e
  reference : ∃ types, .imported handleModule types ∈ outline ls ∧ "JsRef" ∈ types
  nothingElse : ∀ module types, .imported module types ∈ outline ls →
    (module = eventModule ∧ types = [])
      ∨ (module = handleModule ∧ (types = ["JsRef"] ∨ types = ["JsRef", "JsUnknown"]))

section Interfaces

variable {d : Document} {interface : String} {e : Entry}

theorem isRendered_iff : IsRendered d interface e ↔ e ∈ rendered d interface :=
  (mem_firsts_iff _ _ _).symm

theorem usesUnknown_iff : UsesUnknown e ↔ .unknown ∈ valueTypes e := by
  cases e with
  | method m =>
      have hresult : ValueType.ofText m.returnType = .unknown
          ↔ .unknown = ValueType.ofText m.returnType := eq_comm
      rw [valueTypes, List.mem_append, List.mem_map, List.mem_singleton, ← hresult]
      rfl
  | property p =>
      rw [valueTypes, List.mem_singleton, eq_comm]
      rfl
  | event p => exact ⟨fun _ => List.mem_cons_self, fun _ => True.intro⟩

instance (e : Entry) : Decidable (UsesUnknown e) := decidable_of_iff _ usesUnknown_iff.symm

theorem functions_interfaceModule (d : Document) (interface : String) :
    (interfaceModule d interface).functions
      = (rendered d interface).map (functionOfEntry interface) := rfl

/-- The functions of entries have the names that are kept of these. -/
theorem map_name_functionsOf (interface : String) (entries : List Entry) :
    (functionsOf interface entries).map FunctionDef.name
      = (firsts (fun e => valueName e.name) entries).map fun e => valueName e.name := by
  rw [functionsOf, List.map_map]
  exact List.map_congr_left fun e _ => name_functionOfEntry interface e

/-- The function of an entry is what the entry asks for. -/
theorem defines_functionOfEntry (interface : String) (e : Entry) :
    Defines interface e (functionOfEntry interface e).definition where
  name := name_functionOfEntry interface e
  handle := by cases e <;> rfl
  types := by
    show (functionOfEntry interface e).signature.types = _
    rw [types_signature, types_functionOfEntry, List.map_cons, List.map_map]
    rfl
  host hforeign := by
    cases e with
    | method m => rfl
    | property p => rfl
    | event p => exact absurd rfl (hforeign p)
  event p hp := by rw [hp]; rfl

/-- A module has one function for each entry that is rendered. -/
theorem hasFunctions_interfaceModule (d : Document) (interface : String) :
    HasFunctions d interface (interfaceModule d interface).reading := by
  have hnamed := isNamed_interfaceModule d interface
  have hnames : functionNames (interfaceModule d interface).items
      = (rendered d interface).map fun e => valueName e.name := by
    rw [functionNames_items]
    exact map_name_functionsOf interface (d.mergedEntries interface)
  refine ⟨?_, ?_, ?_, ?_⟩
  · rw [outline_module hnamed, hnames]
    exact map_firsts _ _
  · rw [outline_module hnamed, hnames]
    exact nodup_firsts _ _
  · rw [outline_module hnamed, signatures_items, definitions_module hnamed, List.map_map]
    rfl
  · rw [definitions_module hnamed, functions_interfaceModule, List.map_map, List.forall_mem_map]
    intro e he
    exact ⟨e, isRendered_iff.mpr he, defines_functionOfEntry interface e⟩

/-- A function is a listener if its entry is an event. -/
theorem isListener_functionOfEntry_iff :
    (functionOfEntry interface e).isListener = true ↔ e.kind = .event := by
  cases e with
  | method m =>
      show false = true ↔ EntryKind.method = EntryKind.event
      decide
  | property p =>
      show false = true ↔ EntryKind.property = EntryKind.event
      decide
  | event p => exact ⟨fun _ => rfl, fun _ => rfl⟩

/-- A function has a value of unknown type exactly if an entry does. -/
theorem exists_unknown_iff :
    (∃ f ∈ (interfaceModule d interface).functions, .value .unknown ∈ f.types)
      ↔ ∃ e, IsRendered d interface e ∧ UsesUnknown e := by
  simp only [functions_interfaceModule, List.mem_map, exists_exists_and_eq_and,
    unknown_mem_types_iff, usesUnknown_iff, isRendered_iff]

/-- A function adds a listener exactly if an entry is an event. -/
theorem exists_listener_iff :
    (∃ f ∈ (interfaceModule d interface).functions, f.isListener = true)
      ↔ ∃ p, IsRendered d interface (.event p) := by
  rw [functions_interfaceModule]
  constructor
  · rintro ⟨f, hf, hlistener⟩
    obtain ⟨e, he, rfl⟩ := List.mem_map.mp hf
    cases e with
    | method m => cases hlistener
    | property p => cases hlistener
    | event p => exact ⟨p, isRendered_iff.mpr he⟩
  · rintro ⟨p, hp⟩
    exact ⟨_, List.mem_map_of_mem (isRendered_iff.mp hp), rfl⟩

/-- What a module imports: the events if there is a listener, and of the handles what its
functions need. -/
theorem imported_interfaceModule_iff {module : String} {types : List String} :
    .imported module types ∈ outline (interfaceModule d interface).reading
      ↔ (⟨module, types⟩ : Import) = ⟨eventModule, []⟩ ∧ (∃ p, IsRendered d interface (.event p))
        ∨ (⟨module, types⟩ : Import) = ⟨handleModule, ["JsRef", "JsUnknown"]⟩
          ∧ (∃ e, IsRendered d interface e ∧ UsesUnknown e)
        ∨ (⟨module, types⟩ : Import) = ⟨handleModule, ["JsRef"]⟩
          ∧ ¬ ∃ e, IsRendered d interface e ∧ UsesUnknown e := by
  rw [outline_module (isNamed_interfaceModule d interface), imported_mem_items_iff,
    ← exists_listener_iff, ← exists_unknown_iff]
  exact mem_importsFor_iff

/-- So the imports are those that its entries need. -/
theorem hasImports_interfaceModule (d : Document) (interface : String) :
    HasImports d interface (interfaceModule d interface).reading where
  event := by
    have hapart : eventModule ≠ handleModule := by decide
    constructor
    · rintro ⟨types, himport⟩
      rcases imported_interfaceModule_iff.mp himport with ⟨-, hevent⟩ | ⟨heq, -⟩ | ⟨heq, -⟩
      · exact hevent
      · exact absurd (congrArg Import.module heq) hapart
      · exact absurd (congrArg Import.module heq) hapart
    · intro hevent
      exact ⟨[], imported_interfaceModule_iff.mpr (.inl ⟨rfl, hevent⟩)⟩
  unknown := by
    constructor
    · rintro ⟨module, types, himport, hmem⟩
      rcases imported_interfaceModule_iff.mp himport with ⟨heq, -⟩ | ⟨-, hunknown⟩ | ⟨heq, -⟩
      · cases heq
        exact absurd hmem (by decide)
      · exact hunknown
      · cases heq
        exact absurd hmem (by decide)
    · intro hunknown
      exact ⟨_, _, imported_interfaceModule_iff.mpr (.inr (.inl ⟨rfl, hunknown⟩)), by decide⟩
  reference := by
    by_cases hunknown : ∃ e, IsRendered d interface e ∧ UsesUnknown e
    · exact ⟨_, imported_interfaceModule_iff.mpr (.inr (.inl ⟨rfl, hunknown⟩)), List.mem_cons_self⟩
    · exact ⟨_, imported_interfaceModule_iff.mpr (.inr (.inr ⟨rfl, hunknown⟩)), List.mem_cons_self⟩
  nothingElse module types himport := by
    rcases imported_interfaceModule_iff.mp himport with ⟨heq, -⟩ | ⟨heq, -⟩ | ⟨heq, -⟩
    · cases heq
      exact .inl ⟨rfl, rfl⟩
    · cases heq
      exact .inr ⟨rfl, .inr rfl⟩
    · cases heq
      exact .inr ⟨rfl, .inl rfl⟩

/-- Without the entries that are left out an interface has the same module. -/
theorem interfaceModule_of_rendered {d' : Document}
    (h : d'.mergedEntries interface = rendered d interface) :
    interfaceModule d' interface = interfaceModule d interface := by
  have hrendered : rendered d' interface = rendered d interface := by
    rw [rendered, h]
    exact firstsBeside_firstsBeside _ (fun _ hn => hn) _
  have hfunctions : functionsOf interface (d'.mergedEntries interface)
      = functionsOf interface (d.mergedEntries interface) :=
    congrArg (List.map (functionOfEntry interface)) hrendered
  rw [interfaceModule, interfaceModule, hfunctions]

end Interfaces

/-! ## The loop over the entries -/

/-- What is known while merged entries are gone through: the functions so far, and whether one of
them uses unknown values or listens to an event. -/
structure Rendering where
  functions : List FunctionDef
  usesUnknown : Bool
  usesEvent : Bool
  deriving Repr, DecidableEq

namespace Rendering

/-- Nothing is rendered yet. -/
def start : Rendering := ⟨[], false, false⟩

/-- An entry is passed over if the name of its function is taken.  Otherwise its function is added,
and the flags are raised that the entry asks for. -/
def step (interface : String) (r : Rendering) (e : Entry) : Rendering :=
  if valueName e.name ∈ r.functions.map FunctionDef.name then r
  else
    { functions := r.functions ++ [functionOfEntry interface e]
      usesUnknown := r.usesUnknown || decide (UsesUnknown e)
      usesEvent := r.usesEvent || decide (e.kind = .event) }

/-- The module of an interface behind the loop: the flags decide what it imports. -/
def toModule (interface : String) (r : Rendering) : Module :=
  { name := valueName interface
    comment := "Generated from DOM interface: " ++ interface
    imports :=
      (if r.usesEvent then [⟨eventModule, []⟩] else [])
        ++ [⟨handleModule, if r.usesUnknown then ["JsRef", "JsUnknown"] else ["JsRef"]⟩]
    types := [typeName interface]
    functions := r.functions }

/-- What is known reflects the entries seen so far: there are their functions, and the flags tell
of these what they are meant to tell. -/
structure Reflects (interface : String) (seen : List Entry) (r : Rendering) : Prop where
  functions : r.functions = functionsOf interface seen
  unknown : r.usesUnknown = true ↔ ∃ f ∈ r.functions, .value .unknown ∈ f.types
  event : r.usesEvent = true ↔ ∃ f ∈ r.functions, f.isListener = true

variable {interface : String} {seen : List Entry} {r : Rendering}

/-- One more entry adds its function, unless the name is taken. -/
theorem functionsOf_append (interface : String) (seen : List Entry) (e : Entry) :
    functionsOf interface (seen ++ [e])
      = if valueName e.name ∈ (functionsOf interface seen).map FunctionDef.name then
          functionsOf interface seen
        else functionsOf interface seen ++ [functionOfEntry interface e] := by
  rw [map_name_functionsOf, functionsOf, functionsOf, firsts_append_singleton]
  split
  · rfl
  · exact List.map_append

theorem exists_mem_append_singleton {α : Type} {p : α → Prop} {xs : List α} {x : α} :
    (∃ y ∈ xs ++ [x], p y) ↔ (∃ y ∈ xs, p y) ∨ p x := by
  simp only [List.mem_append, List.mem_singleton, or_and_right, exists_or, exists_eq_left]

/-- **ONE TURN**: an entry that is passed over changes nothing, and any other adds to the flags what
its function adds. -/
theorem Reflects.step (h : Reflects interface seen r) (e : Entry) :
    Reflects interface (seen ++ [e]) (r.step interface e) := by
  rw [Rendering.step]
  have hfunctions := functionsOf_append interface seen e
  rw [← h.functions] at hfunctions
  -- An entry whose name is taken is passed over: the functions stay as they are and so do the
  -- flags.
  split
  · next htaken =>
    rw [if_pos htaken] at hfunctions
    exact ⟨hfunctions.symm, h.unknown, h.event⟩
  · next htaken =>
    rw [if_neg htaken] at hfunctions
    refine ⟨hfunctions.symm, ?_, ?_⟩
    · show (r.usesUnknown || decide (UsesUnknown e)) = true
        ↔ ∃ f ∈ r.functions ++ [functionOfEntry interface e], .value .unknown ∈ f.types
      rw [Bool.or_eq_true, decide_eq_true_iff, h.unknown, exists_mem_append_singleton,
        unknown_mem_types_iff, usesUnknown_iff]
    · show (r.usesEvent || decide (e.kind = .event)) = true
        ↔ ∃ f ∈ r.functions ++ [functionOfEntry interface e], f.isListener = true
      rw [Bool.or_eq_true, decide_eq_true_iff, h.event, exists_mem_append_singleton,
        isListener_functionOfEntry_iff]

/-- **THE RUN**: behind the loop the functions of all entries are there, with flags that tell of
them what they are meant to tell. -/
theorem reflects_foldl (h : Reflects interface seen r) (entries : List Entry) :
    Reflects interface (seen ++ entries) (entries.foldl (Rendering.step interface) r) := by
  induction entries generalizing seen r with
  | nil =>
      rw [List.append_nil]
      exact h
  | cons e entries ih =>
      rw [List.append_cons]
      exact ih (h.step e)

/-- The flags are down before the first entry. -/
theorem reflects_start (interface : String) : Reflects interface [] start := by
  refine ⟨rfl, ?_, ?_⟩
  · simp [start]
  · simp [start]

/-- The loop comes to the module of the interface. -/
theorem toModule_foldl (d : Document) (interface : String) :
    ((d.mergedEntries interface).foldl (Rendering.step interface) start).toModule interface
      = interfaceModule d interface := by
  have hloop := reflects_foldl (reflects_start interface) (d.mergedEntries interface)
  generalize (d.mergedEntries interface).foldl (Rendering.step interface) start = r at hloop
  obtain ⟨hfunctions, hunknown, hevent⟩ := hloop
  have hunknown' : r.usesUnknown = r.functions.any fun f => f.types.contains (.value .unknown) := by
    rw [Bool.eq_iff_iff, hunknown, List.any_eq_true]
    simp only [List.contains_iff_mem]
  have hevent' : r.usesEvent = r.functions.any FunctionDef.isListener := by
    rw [Bool.eq_iff_iff, hevent, List.any_eq_true]
  have himports : (r.toModule interface).imports = importsFor r.functions := by
    rw [importsFor, ← hunknown', ← hevent', toModule]
    cases r.usesUnknown <;> cases r.usesEvent <;> rfl
  have hmodule : interfaceModule d interface
      = { r.toModule interface with imports := importsFor r.functions } := by
    rw [interfaceModule, toModule, hfunctions, List.nil_append]
  rw [hmodule, ← himports]

end Rendering

/-! ## The headline -/

/-- **THE FUNCTIONS OF AN INTERFACE**: the module of an interface defines one function for each
name to which the merged entries come, in their order; it is that of the first entry of its name
and is bound to the interface.  The module imports what these entries need: it is what the loop with
its flags comes to.  And entries that are left out have no influence: a document in which there are
only the others has the same file. -/
theorem emitted_functions (x : Escapes) {d : Document} {package : String} {files : List EmittedFile}
    (h : emit d package = .ok files) {interface : String} (hmem : interface ∈ d.entries.keys) :
    ∃ f ∈ files, f.path = modulePath (valueName interface)
      ∧ written (interfaceModule d interface).reading = f.contents.toList
      ∧ (NamesInside d interface →
          readSource x f.contents.toList = some (interfaceModule d interface).reading)
      ∧ ((d.mergedEntries interface).foldl (Rendering.step interface) .start).toModule interface
        = interfaceModule d interface
      ∧ HasFunctions d interface (interfaceModule d interface).reading
      ∧ HasImports d interface (interfaceModule d interface).reading
      ∧ ∀ (d' : Document) (package' : String) (files' : List EmittedFile),
          emit d' package' = .ok files' → interface ∈ d'.entries.keys →
          d'.mergedEntries interface = rendered d interface → f ∈ files' := by
  refine ⟨_, interfaceFile_of_emit h hmem, ?_, written_reading _, readSource_interfaceModule x,
    Rendering.toModule_foldl d interface, hasFunctions_interfaceModule d interface,
    hasImports_interfaceModule d interface, ?_⟩
  · rw [path_file, name_interfaceModule]
  · intro d' package' files' h' hmem' hmerged
    rw [← interfaceModule_of_rendered hmerged]
    exact interfaceFile_of_emit h' hmem'

/-- A document with a property and two further entries that come to its name. -/
def respelledElement : Document :=
  { entries :=
      ⟨[("Element",
          [.property ⟨"Element", "innerHTML", "string", none⟩,
            .property ⟨"Element", "innerHtml", "any", none⟩,
            .event ⟨"Element", "inner_html", "any", none⟩])],
        by decide⟩
    parents := Keyed.empty }

/-- Its module has the one function of the property; the other type and the event bring no
imports. -/
theorem emitted_functions_respelled :
    emit respelledElement "twig" = .ok (packageFiles respelledElement "twig")
      ∧ ∃ f ∈ packageFiles respelledElement "twig", f.path = modulePath (valueName "Element")
        ∧ ∃ ls, readSource shortEscapes f.contents.toList = some ls
          ∧ functionNames (outline ls) = ["inner_html"]
          ∧ (¬ ∃ types, .imported eventModule types ∈ outline ls)
          ∧ ¬ ∃ module types, .imported module types ∈ outline ls ∧ "JsUnknown" ∈ types := by
  have hemit : emit respelledElement "twig" = .ok (packageFiles respelledElement "twig") :=
    emit_eq_ok (by decide) (by decide +kernel)
  have hrendered : rendered respelledElement "Element"
      = [.property ⟨"Element", "innerHTML", "string", none⟩] := by
    decide +kernel
  have honly : ∀ e, IsRendered respelledElement "Element" e →
      e = .property ⟨"Element", "innerHTML", "string", none⟩ := by
    intro e he
    rw [isRendered_iff, hrendered] at he
    exact List.mem_singleton.mp he
  have hnames : NamesInside respelledElement "Element" := by decide +kernel
  obtain ⟨f, hf, hpath, -, hread, -, hfunctions, himports, -⟩ :=
    emitted_functions shortEscapes hemit List.mem_cons_self
  refine ⟨hemit, f, hf, hpath, _, hread hnames, ?_, ?_, ?_⟩
  · rw [hfunctions.names]
    decide +kernel
  · rw [himports.event]
    rintro ⟨p, hp⟩
    cases honly _ hp
  · rw [himports.unknown]
    rintro ⟨e, he, huses⟩
    obtain rfl := honly e he
    exact absurd huses (by decide +kernel)

end Bindery.Gleam
