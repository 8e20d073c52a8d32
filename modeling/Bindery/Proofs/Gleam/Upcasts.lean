import Bindery.Proofs.Distinct
import Bindery.Proofs.Gleam.PackageOutline
import Bindery.Proofs.Keyed
import Bindery.Proofs.Lineage.LevelOrder

/-!
# The module of upcasts

The module of upcasts says one thing for each function name that the pairs of an interface and
an ancestor come to: the upcast of the first pair with that name, between handles that the
module has (`emitted_upcasts`).

The names of types are another matter.  The walk over the owners keeps the names of modules
apart, and different names may lead to one type: `Node` and `Node_` have modules of their own and
one type.  So the module of upcasts has each type once exactly if its handles are apart
(`upcast_types_nodup_iff`).
-/

namespace Bindery.Gleam

/-! ## Pairs and handles -/

/-- The head of the upcast of a pair. -/
def castSignature (pair : String × String) : Signature :=
  { name := valueName pair.1 ++ "_as_" ++ valueName pair.2
    parameters := [("el", .applied "JsRef" (typeName pair.1))]
    result := .applied "JsRef" (typeName pair.2) }

/-- The interfaces whose handles the upcasts take or give. -/
def handles (d : Document) : List String :=
  (upcastPairs d).map Prod.fst ++ (castPairs d).map Prod.snd

/-- The handles of the upcasts have different types, unless neither has a module, and no type is
named like that of references. -/
structure HandlesApart (d : Document) : Prop where
  types : ∀ a ∈ handles d, ∀ b ∈ handles d, typeName a = typeName b →
    a = b ∨ (a ∉ d.entries.keys ∧ b ∉ d.entries.keys)
  reference : ∀ a ∈ handles d, typeName a ≠ "JsRef"

section Pairs

variable {d : Document} {pair : String × String} {name t : String}

/-- There is a cast from each interface to each of its ancestors. -/
theorem mem_upcastPairs_iff :
    pair ∈ upcastPairs d ↔ pair.1 ∈ d.entries.keys ∧ pair.2 ∈ d.parents.ancestors pair.1 := by
  rw [upcastPairs, List.mem_flatMap]
  constructor
  · rintro ⟨interface, hinterface, hpair⟩
    obtain ⟨ancestor, hancestor, rfl⟩ := List.mem_map.mp hpair
    exact ⟨hinterface, hancestor⟩
  · rintro ⟨hinterface, hancestor⟩
    exact ⟨pair.1, hinterface, List.mem_map_of_mem hancestor⟩

/-- No interface is an ancestor of itself. -/
theorem ne_of_mem_upcastPairs (h : pair ∈ upcastPairs d) : pair.1 ≠ pair.2 := by
  obtain ⟨hne, -⟩ := ParentTable.mem_ancestors_iff.mp (mem_upcastPairs_iff.mp h).2
  exact hne.symm

theorem mem_upcastPairs_of_mem_castPairs (h : pair ∈ castPairs d) : pair ∈ upcastPairs d :=
  (firsts_sublist upcastName _).subset h

/-- Without pairs there are no upcasts, and only then. -/
theorem castPairs_eq_nil_iff : castPairs d = [] ↔ upcastPairs d = [] := by
  have hnames : (castPairs d).map upcastName = ((upcastPairs d).map upcastName).eraseDups :=
    map_firsts upcastName (upcastPairs d)
  constructor
  · intro hnil
    cases hpairs : upcastPairs d with
    | nil => rfl
    | cons pair rest =>
        rw [hnil, hpairs, List.map_nil, List.map_cons, List.eraseDups_cons] at hnames
        cases hnames
  · intro hnil
    rw [castPairs, hnil]
    rfl

/-- A handle is imported if its interface has a module. -/
theorem mem_importedInterfaces_iff :
    name ∈ importedInterfaces d ↔ name ∈ handles d ∧ name ∈ d.entries.keys := by
  have hsource : name ∈ (upcastPairs d).map Prod.fst → name ∈ d.entries.keys := by
    intro hmem
    obtain ⟨pair, hpair, rfl⟩ := List.mem_map.mp hmem
    exact (mem_upcastPairs_iff.mp hpair).1
  rw [importedInterfaces, mem_distinct_iff, handles, List.mem_append, List.mem_append,
    List.mem_filter, Keyed.has_iff]
  tauto

/-- A handle without a module has its type in the module of upcasts. -/
theorem mem_ownTypes_iff :
    t ∈ ownTypes d ↔ ∃ name ∈ handles d, name ∉ d.entries.keys ∧ typeName name = t := by
  have hkey : ∀ a, (!d.entries.has a) = true ↔ a ∉ d.entries.keys := by
    intro a
    rw [← Keyed.has_iff, Bool.not_eq_true', Bool.not_eq_true]
  rw [ownTypes, mem_distinct_iff, List.mem_map]
  constructor
  · rintro ⟨a, ha, rfl⟩
    obtain ⟨hmem, hfresh⟩ := List.mem_filter.mp ha
    exact ⟨a, List.mem_append_right _ hmem, (hkey a).mp hfresh, rfl⟩
  · rintro ⟨a, hmem, hfresh, rfl⟩
    refine ⟨a, List.mem_filter.mpr ⟨?_, (hkey a).mpr hfresh⟩, rfl⟩
    -- the sources of pairs all have modules
    rcases List.mem_append.mp hmem with hsource | htarget
    · obtain ⟨pair, hpair, rfl⟩ := List.mem_map.mp hsource
      exact absurd (mem_upcastPairs_iff.mp hpair).1 hfresh
    · exact htarget

/-! ## What the module says -/

/-- The functions of the module are the casts, each pair once. -/
theorem signatures_upcastModule (d : Document) :
    (upcastModule d).items.filterMap Item.signature? = (castPairs d).map castSignature := by
  rw [signatures_items]
  show ((castPairs d).map upcastFunction).map FunctionDef.signature = _
  rw [List.map_map]
  rfl

/-- The type of a handle is imported from the module that defines it; if there is none, it is
defined where it is used. -/
structure HasHandle (d : Document) (files : List EmittedFile) (items : List Item) (name : String) :
    Prop where
  imported : name ∈ d.entries.keys →
    .imported (valueName name) [typeName name] ∈ items
      ∧ ∃ f ∈ files, f.path = modulePath (valueName name)
        ∧ written (interfaceModule d name).reading = f.contents.toList
        ∧ (∀ x, NamesInside d name →
            readSource x f.contents.toList = some (interfaceModule d name).reading)
        ∧ .type (typeName name) ∈ outline (interfaceModule d name).reading
  defined : name ∉ d.entries.keys → .type (typeName name) ∈ items

/-- The functions that the module of upcasts should have, given what it says: of the pairs with
one function name the first has its upcast. -/
structure HasUpcasts (d : Document) (files : List EmittedFile) (items : List Item) : Prop where
  names : (items.filterMap Item.signature?).map Signature.name
    = ((upcastPairs d).map upcastName).eraseDups
  signatures : ∀ s ∈ items.filterMap Item.signature?,
    ∃ pair, (upcastPairs d).find? (fun q => upcastName q == s.name) = some pair ∧ pair.1 ≠ pair.2
      ∧ s = castSignature pair ∧ HasHandle d files items pair.1 ∧ HasHandle d files items pair.2

/-- The import of a handle. -/
theorem imported_mem_upcastModule (hhandle : name ∈ handles d) (hkey : name ∈ d.entries.keys) :
    .imported (valueName name) [typeName name] ∈ (upcastModule d).items := by
  have himport : ⟨valueName name, [typeName name]⟩ ∈ upcastImports d := by
    refine List.mem_map.mpr ⟨name, ?_, rfl⟩
    exact List.mem_mergeSort.mpr (mem_importedInterfaces_iff.mpr ⟨hhandle, hkey⟩)
  have hcasts : ¬ (castPairs d).isEmpty = true := by
    intro hempty
    have hnil := List.isEmpty_iff.mp hempty
    rw [handles, hnil, castPairs_eq_nil_iff.mp hnil] at hhandle
    cases hhandle
  have hmem : ⟨valueName name, [typeName name]⟩ ∈ (upcastModule d).imports := by
    rw [upcastModule]
    dsimp only
    rw [if_neg hcasts]
    exact List.mem_append_left _ himport
  exact imported_mem_items_iff.mpr hmem

/-- The handles of the upcasts are there. -/
theorem hasHandle_of_mem {package : String} {files : List EmittedFile}
    (h : emit d package = .ok files) (hhandle : name ∈ handles d) :
    HasHandle d files (upcastModule d).items name := by
  refine ⟨fun hkey => ⟨imported_mem_upcastModule hhandle hkey, ?_⟩, fun hfresh => ?_⟩
  · refine ⟨(interfaceModule d name).file, interfaceFile_of_emit h hkey, ?_, written_reading _,
      readSource_interfaceModule, ?_⟩
    · rw [path_file, name_interfaceModule]
    · rw [outline_module (isNamed_interfaceModule d name)]
      exact type_mem_items (List.mem_singleton.mpr rfl)
  · exact type_mem_items (mem_ownTypes_iff.mpr ⟨name, hhandle, hfresh, rfl⟩)

/-- Without upcasts the module has its comment only. -/
theorem text_upcastModule_of_nil (h : upcastPairs d = []) :
    (upcastModule d).text = "// Generated upcasts from each DOM interface to its ancestors.\n" := by
  have hcasts := castPairs_eq_nil_iff.mpr h
  have hblocks : (upcastModule d).blocks
      = [["// Generated upcasts from each DOM interface to its ancestors."], [], []] := by
    rw [upcastModule, ownTypes, hcasts]
    rfl
  rw [Module.text, hblocks]
  decide

/-! ## The types in scope -/

/-- The imported types, in the order of the interfaces and not of their modules. -/
theorem perm_types_upcastImports (d : Document) :
    ((upcastImports d).flatMap Import.types).Perm ((importedInterfaces d).map typeName) := by
  rw [upcastImports, List.flatMap_map]
  show (((importedInterfaces d).mergeSort _).flatMap fun name => [typeName name]).Perm _
  rw [← List.map_eq_flatMap]
  exact (List.mergeSort_perm _ _).map typeName

/-- Imported types, the type of references and the types without modules are apart exactly if the
handles are. -/
theorem nodup_types_iff (d : Document) :
    ("JsRef" :: ((importedInterfaces d).map typeName ++ ownTypes d)).Nodup ↔ HandlesApart d := by
  have himported : (importedInterfaces d).Nodup := nodup_distinct _
  rw [List.nodup_cons, List.nodup_append, List.nodup_map_iff_inj_on himported]
  -- Each type comes once from either list, so a repetition is two handles of one list, one of
  -- each, or the reference itself.
  constructor
  · rintro ⟨href, hinj, -, hcross⟩
    have hown : ∀ a ∈ handles d, a ∈ d.entries.keys → ∀ b ∈ handles d, b ∉ d.entries.keys →
        typeName a ≠ typeName b := by
      intro a ha hkey b hb hfresh
      refine hcross _ (List.mem_map_of_mem (mem_importedInterfaces_iff.mpr ⟨ha, hkey⟩)) _ ?_
      exact mem_ownTypes_iff.mpr ⟨b, hb, hfresh, rfl⟩
    refine ⟨?_, ?_⟩
    · intro a ha b hb heq
      by_cases hka : a ∈ d.entries.keys <;> by_cases hkb : b ∈ d.entries.keys
      · exact .inl (hinj a (mem_importedInterfaces_iff.mpr ⟨ha, hka⟩) b
          (mem_importedInterfaces_iff.mpr ⟨hb, hkb⟩) heq)
      · exact absurd heq (hown a ha hka b hb hkb)
      · exact absurd heq.symm (hown b hb hkb a ha hka)
      · exact .inr ⟨hka, hkb⟩
    · intro a ha heq
      refine href ?_
      rw [← heq, List.mem_append]
      by_cases hkey : a ∈ d.entries.keys
      · exact .inl (List.mem_map_of_mem (mem_importedInterfaces_iff.mpr ⟨ha, hkey⟩))
      · exact .inr (mem_ownTypes_iff.mpr ⟨a, ha, hkey, rfl⟩)
  · intro happart
    refine ⟨?_, ?_, nodup_distinct _, ?_⟩
    · intro hmem
      rcases List.mem_append.mp hmem with himported | hown
      · obtain ⟨a, ha, heq⟩ := List.mem_map.mp himported
        exact happart.reference a (mem_importedInterfaces_iff.mp ha).1 heq
      · obtain ⟨a, ha, -, heq⟩ := mem_ownTypes_iff.mp hown
        exact happart.reference a ha heq
    · intro a ha b hb heq
      obtain ⟨ha, hka⟩ := mem_importedInterfaces_iff.mp ha
      obtain ⟨hb, -⟩ := mem_importedInterfaces_iff.mp hb
      exact (happart.types a ha b hb heq).resolve_right fun hfresh => hfresh.1 hka
    · rintro s hs t ht rfl
      obtain ⟨a, ha, rfl⟩ := List.mem_map.mp hs
      obtain ⟨ha, hka⟩ := mem_importedInterfaces_iff.mp ha
      obtain ⟨b, hb, hkb, heq⟩ := mem_ownTypes_iff.mp ht
      rcases happart.types a ha b hb heq.symm with rfl | ⟨hfresh, -⟩
      · exact hkb hka
      · exact hfresh hka

/-- The types in the scope of the module of upcasts. -/
theorem nodup_scope_iff (d : Document) :
    ((upcastModule d).items.flatMap Item.types).Nodup ↔ HandlesApart d := by
  rw [types_items]
  -- Without a cast the module is empty, whatever the handles are called.
  by_cases hcasts : (castPairs d).isEmpty = true
  · have hnil := List.isEmpty_iff.mp hcasts
    have hhandles : handles d = [] := by
      rw [handles, hnil, castPairs_eq_nil_iff.mp hnil]
      rfl
    have hscope : (upcastModule d).imports.flatMap Import.types ++ (upcastModule d).types = [] := by
      rw [upcastModule, ownTypes, hnil]
      rfl
    rw [hscope]
    refine iff_of_true List.nodup_nil ⟨?_, ?_⟩ <;> simp [hhandles]
  · have hscope : (upcastModule d).imports.flatMap Import.types ++ (upcastModule d).types
        = (upcastImports d).flatMap Import.types ++ "JsRef" :: ownTypes d := by
      rw [upcastModule]
      dsimp only
      rw [if_neg hcasts, List.flatMap_append, List.append_assoc]
      rfl
    rw [hscope, (List.perm_middle.trans
      (((perm_types_upcastImports d).append_right _).cons _)).nodup_iff]
    exact nodup_types_iff d

end Pairs

/-! ## The headlines -/

/-- **THE UPCASTS**: behind the modules of the interfaces a package has the module of upcasts.
It has one function for each name that the pairs of an interface and an ancestor come to, in the
order in which these come up, and the handles of each are imported from the module that defines
them, or defined here.  Without pairs it has its comment only. -/
theorem emitted_upcasts (x : Escapes) {d : Document} {package : String} {files : List EmittedFile}
    (h : emit d package = .ok files) :
    ∃ f items, files[d.entries.keys.length]? = some f ∧ f.path = modulePath upcastModuleName
      ∧ f.items? x = some items ∧ HasUpcasts d files items
      ∧ (upcastPairs d = [] →
          f.contents = "// Generated upcasts from each DOM interface to its ancestors.\n") := by
  refine ⟨_, _, upcastFile_of_emit h, ?_, items?_upcastModule x d, ⟨?_, ?_⟩,
    text_upcastModule_of_nil⟩
  · rw [path_file, name_upcastModule]
  · rw [signatures_upcastModule, ← map_firsts, List.map_map]
    rfl
  · intro s hs
    rw [signatures_upcastModule] at hs
    obtain ⟨pair, hpair, rfl⟩ := List.mem_map.mp hs
    have hmem := mem_upcastPairs_of_mem_castPairs hpair
    have hsource : pair.1 ∈ handles d := List.mem_append_left _ (List.mem_map_of_mem hmem)
    have htarget : pair.2 ∈ handles d := List.mem_append_right _ (List.mem_map_of_mem hpair)
    exact ⟨pair, (mem_firsts_iff upcastName _ pair).mp hpair, ne_of_mem_upcastPairs hmem, rfl,
      hasHandle_of_mem h hsource, hasHandle_of_mem h htarget⟩

/-- In the module of upcasts an element becomes a node. -/
theorem emitted_upcasts_of_nodeAndElement :
    emit nodeAndElement "twig" = .ok (packageFiles nodeAndElement "twig")
      ∧ ∃ f items, (packageFiles nodeAndElement "twig")[2]? = some f
        ∧ f.items? shortEscapes = some items
        ∧ (items.filterMap Item.signature?).map Signature.name = ["html_element_as_node"] := by
  have hemit : emit nodeAndElement "twig" = .ok (packageFiles nodeAndElement "twig") :=
    emit_eq_ok (by decide) (by decide +kernel)
  have hnames :
      ((upcastPairs nodeAndElement).map upcastName).eraseDups = ["html_element_as_node"] := by
    decide +kernel
  obtain ⟨f, items, hfile, -, hitems, hupcasts, -⟩ := emitted_upcasts shortEscapes hemit
  exact ⟨hemit, f, items, hfile, hitems, hupcasts.names.trans hnames⟩

/-- **ONE TYPE, ONE HANDLE**: the module of upcasts has each type once in its scope exactly if the
handles that it uses have different types. -/
theorem upcast_types_nodup_iff (x : Escapes) {d : Document} {package : String}
    {files : List EmittedFile} (h : emit d package = .ok files) :
    ∃ f items, files[d.entries.keys.length]? = some f ∧ f.path = modulePath upcastModuleName
      ∧ f.items? x = some items ∧ ((items.flatMap Item.types).Nodup ↔ HandlesApart d) := by
  refine ⟨_, _, upcastFile_of_emit h, ?_, items?_upcastModule x d, nodup_scope_iff d⟩
  rw [path_file, name_upcastModule]

/-- The module that takes an element to a node has three types in its scope. -/
theorem upcast_types_of_nodeAndElement :
    emit nodeAndElement "twig" = .ok (packageFiles nodeAndElement "twig")
      ∧ ∃ f items, (packageFiles nodeAndElement "twig")[2]? = some f
        ∧ f.items? shortEscapes = some items ∧ (items.flatMap Item.types).Nodup := by
  have hemit : emit nodeAndElement "twig" = .ok (packageFiles nodeAndElement "twig") :=
    emit_eq_ok (by decide) (by decide +kernel)
  have happart : HandlesApart nodeAndElement := ⟨by decide +kernel, by decide +kernel⟩
  obtain ⟨f, items, hfile, -, hitems, hnodup⟩ := upcast_types_nodup_iff shortEscapes hemit
  exact ⟨hemit, f, items, hfile, hitems, hnodup.mpr happart⟩

/-- A document with two ancestors whose modules have different names and whose types have one. -/
def twoNodes : Document :=
  { entries := ⟨[("A", []), ("Node", []), ("Node_", [])], by decide⟩
    parents := ⟨[("A", ["Node", "Node_"])], by decide⟩ }

/-- The document is emitted, and the module of upcasts imports the type of nodes twice. -/
theorem upcast_type_imported_twice :
    emit twoNodes "twig" = .ok (packageFiles twoNodes "twig")
      ∧ ∃ f items, (packageFiles twoNodes "twig")[3]? = some f
        ∧ f.path = modulePath upcastModuleName ∧ f.items? shortEscapes = some items
        ∧ .imported "node" ["Node"] ∈ items ∧ .imported "node_" ["Node"] ∈ items := by
  have hemit : emit twoNodes "twig" = .ok (packageFiles twoNodes "twig") :=
    emit_eq_ok (by decide) (by decide +kernel)
  have hnode : .imported (valueName "Node") [typeName "Node"] ∈ (upcastModule twoNodes).items :=
    imported_mem_upcastModule (by decide +kernel) (by decide)
  have hnode_ : .imported (valueName "Node_") [typeName "Node_"] ∈ (upcastModule twoNodes).items :=
    imported_mem_upcastModule (by decide +kernel) (by decide)
  have hnames : valueName "Node" = "node" ∧ valueName "Node_" = "node_" ∧ typeName "Node" = "Node"
      ∧ typeName "Node_" = "Node" := by
    decide +kernel
  obtain ⟨hvalue, hvalue_, htype, htype_⟩ := hnames
  rw [hvalue, htype] at hnode
  rw [hvalue_, htype_] at hnode_
  refine ⟨hemit, _, _, upcastFile_of_emit hemit, ?_, items?_upcastModule shortEscapes twoNodes,
    hnode, hnode_⟩
  rw [path_file, name_upcastModule]

end Bindery.Gleam
