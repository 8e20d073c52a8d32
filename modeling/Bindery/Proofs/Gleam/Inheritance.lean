import Bindery.Proofs.Gleam.Owners
import Bindery.Proofs.Lineage.Agreement

/-!
# What emission reads of the table of parents

Emission goes over the interfaces of a document and asks for the ancestors of each: for the
entries that it inherits, and for the handles that it is cast to.  It asks for nothing else of
the table of parents, so documents with the same entries whose interfaces have the same
ancestors are emitted alike (`emit_congr`).

And ancestors are found by walking from the interfaces.  What decides about them is which
parents the names that are reached have, in which order, the first of equal ones counting and
a name's own one not (`SameInheritance`).  The headline is `emit_eq_of_sameInheritance`.
-/

namespace Bindery

/-! ## Names that are reached -/

/-- From an interface of the document one comes to the name. -/
def Document.Reaches (d : Document) (name : String) : Prop :=
  ∃ i ∈ d.entries.keys, ∃ n, d.parents.Climb i n name

/-- What is reached is the closure of the interfaces. -/
theorem Document.reaches_iff {d : Document} {name : String} :
    d.Reaches name ↔ name ∈ d.parents.closure d.entries.keys :=
  ParentTable.mem_closure_iff.symm

theorem Document.reaches_of_mem_keys {d : Document} {i : String} (h : i ∈ d.entries.keys) :
    d.Reaches i :=
  ⟨i, h, 0, .start⟩

/-- Two documents have the same entries, and give the same other parents to every name that
both of them reach. -/
structure SameInheritance (d d' : Document) : Prop where
  entries : d.entries = d'.entries
  parents : ∀ name, d.Reaches name → d'.Reaches name →
    d.parents.otherParents name = d'.parents.otherParents name

namespace SameInheritance

variable {d d' : Document} {name : String}

/-- What one of them reaches is reached by the other one. -/
theorem reaches (h : SameInheritance d d') (hname : d.Reaches name) : d'.Reaches name := by
  obtain ⟨i, hi, n, hclimb⟩ := hname
  -- one step after the other: a parent is the name itself or one of its other parents
  induction hclimb with
  | start => exact Document.reaches_of_mem_keys (h.entries ▸ hi)
  | @step n b c hb hc ih =>
      by_cases hself : c = b
      · rw [hself]
        exact ih
      · have hother : c ∈ d.parents.otherParents b :=
          ParentTable.mem_otherParents_iff.mpr ⟨hc, hself⟩
        rw [h.parents b ⟨i, hi, n, hb⟩ ih, ParentTable.mem_otherParents_iff] at hother
        obtain ⟨j, hj, m, hm⟩ := ih
        exact ⟨j, hj, m + 1, hm.step hother.1⟩

/-- The tables of parents agree on what is reached. -/
theorem agreeOn (h : SameInheritance d d') : d.parents.AgreeOn d'.parents d.Reaches := by
  refine ⟨?_, fun name hname => h.parents name hname (h.reaches hname)⟩
  rintro b ⟨i, hi, n, hb⟩ c hc
  exact ⟨i, hi, n + 1, hb.step hc⟩

/-- A name that is reached has the same ancestors under both tables. -/
theorem ancestors_eq (h : SameInheritance d d') (hname : name ∈ d.entries.keys) :
    d.parents.ancestors name = d'.parents.ancestors name :=
  h.agreeOn.ancestors_eq (Document.reaches_of_mem_keys hname)

end SameInheritance

namespace Gleam

/-! ## Modules -/

/-- The module of an interface is made of the entries along its ancestors. -/
theorem interfaceModule_congr {d d' : Document} {interface : String}
    (h : d.entriesAlong interface = d'.entriesAlong interface) :
    interfaceModule d interface = interfaceModule d' interface := by
  rw [interfaceModule, interfaceModule, Document.mergedEntries, Document.mergedEntries, h]

variable {d d' : Document}

/-- The pairs for upcasts are made of the ancestors of the interfaces. -/
theorem upcastPairs_congr (hentries : d.entries = d'.entries)
    (hancestors : ∀ i ∈ d.entries.keys, d.parents.ancestors i = d'.parents.ancestors i) :
    upcastPairs d = upcastPairs d' := by
  rw [upcastPairs, upcastPairs, ← hentries]
  refine List.flatMap_congr fun i hi => ?_
  rw [hancestors i hi]

/-- The module of upcasts is made of those pairs. -/
theorem upcastModule_congr (hentries : d.entries = d'.entries)
    (hpairs : upcastPairs d = upcastPairs d') : upcastModule d = upcastModule d' := by
  have hcast : castPairs d = castPairs d' := by
    rw [castPairs, castPairs, hpairs]
  have hown : ownTypes d = ownTypes d' := by
    rw [ownTypes, ownTypes, hcast, hentries]
  have himports : upcastImports d = upcastImports d' := by
    rw [upcastImports, upcastImports, importedInterfaces, importedInterfaces, hpairs, hcast,
      hentries]
  rw [upcastModule, upcastModule, hcast, hown, himports]

/-! ## Emission -/

/-- Documents with the same entries whose interfaces have the same ancestors are emitted
alike. -/
theorem emit_congr (hentries : d.entries = d'.entries)
    (hancestors : ∀ i ∈ d.entries.keys, d.parents.ancestors i = d'.parents.ancestors i)
    (package : String) : emit d package = emit d' package := by
  have hmodule : ∀ i ∈ d.entries.keys, interfaceModule d i = interfaceModule d' i := by
    intro i hi
    refine interfaceModule_congr ?_
    rw [Document.entriesAlong, Document.entriesAlong, hancestors i hi, hentries]
  have hmodules : modules d = modules d' := by
    rw [modules, modules, upcastModule_congr hentries (upcastPairs_congr hentries hancestors),
      List.map_congr_left hmodule, hentries]
  rw [emit, emit, packageFiles, packageFiles, hmodules, hentries]

/-- **INHERITANCE IS ALL THAT COUNTS**: two documents with the same entries whose names that
are reached have the same parents, apart from repetitions and from the names themselves, are
emitted alike, be it as files or as an error.  The order of the tables of parents, and what
they say of names that are not reached, does not matter. -/
theorem emit_eq_of_sameInheritance {d d' : Document} (h : SameInheritance d d')
    (package : String) : emit d package = emit d' package :=
  emit_congr h.entries (fun _ hi => h.ancestors_eq hi) package

/-- A document with a repeated parent, interfaces that extend themselves, a cycle, and a name
that is not reached. -/
def roundabout : Document :=
  { entries := ⟨[("Node", [.property ⟨"Node", "nodeName", "string", none⟩]), ("Element", [])],
      by decide⟩
    parents :=
      ⟨[("Ghost", ["Element", "Node"]), ("Element", ["Element", "Slot", "Node", "Slot"]),
        ("Node", ["Node"]), ("Slot", ["Element"])], by decide⟩ }

/-- A document with the same entries that says the same in fewer words, in another order. -/
def straight : Document :=
  { entries := roundabout.entries
    parents := ⟨[("Slot", ["Element"]), ("Element", ["Slot", "Node"])], by decide⟩ }

/-- The two are emitted alike. -/
theorem emit_roundabout_eq_straight :
    SameInheritance roundabout straight
      ∧ roundabout.parents.keys ≠ straight.parents.keys
      ∧ emit roundabout "twig" = emit straight "twig"
      ∧ emit straight "twig" = .ok (packageFiles straight "twig") := by
  have hparents : ∀ name ∈ roundabout.parents.closure roundabout.entries.keys,
      roundabout.parents.otherParents name = straight.parents.otherParents name := by
    decide +kernel
  have hsame : SameInheritance roundabout straight :=
    ⟨rfl, fun name hname _ => hparents name (Document.reaches_iff.mp hname)⟩
  exact ⟨hsame, by decide, emit_eq_of_sameInheritance hsame "twig",
    emit_eq_ok (by decide) (by decide +kernel)⟩

end Gleam

end Bindery
