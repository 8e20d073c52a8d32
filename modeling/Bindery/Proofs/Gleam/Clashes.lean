import Bindery.Proofs.Gleam.Paths

/-!
# What comes of emission

A package that cannot name a module is refused before anything else.  Then the interfaces get
their module names in the order of the document, and the first one whose module name has an owner
already is refused together with that owner.  If no interface is refused there is a file for each
of them, and two more.

What owns a module name is told by a relation (`Owns`): before any interface two names own
themselves, and an interface that was passed owns the name that it came to.  The owners that the
walk looks up are these as long as no interface was refused (`lookup_iff_owns`).  So the walk
fails exactly over the first interface that comes to an owned name (`checkOwners_eq_error_iff`,
`walk_eq_error_iff`).

The headline is `emit_outcome`.
-/

namespace Bindery.Gleam

/-! ## Owners -/

/-- What owns a module name once some interfaces have got theirs. -/
inductive Owns (package : String) (earlier : List String) : String → String → Prop where
  | upcasts : Owns package earlier upcastModuleName upcastModuleName
  | entryPoint : Owns package earlier package package
  | interface {name : String} (passed : name ∈ earlier) :
      Owns package earlier name (valueName name)

/-- No interface of a listing comes to a module name that is owned when its turn comes. -/
def AllApart (package : String) (names : List String) : Prop :=
  ∀ before name after, names = before ++ name :: after →
    ∀ owner, ¬ Owns package before owner (valueName name)

/-- The first interface of a listing that comes to an owned module name, with the owner. -/
def IsFirstClash (package : String) (names : List String) (module first second : String) : Prop :=
  ∃ earlier later, names = earlier ++ second :: later ∧ AllApart package earlier
    ∧ module = valueName second ∧ Owns package earlier first module

/-- Two interfaces of a document come to one module name, or one of them to a name that is taken
from the start. -/
def HasClash (d : Document) (package : String) : Prop :=
  (∃ a ∈ d.entries.keys, ∃ b ∈ d.entries.keys, a ≠ b ∧ valueName a = valueName b)
    ∨ ∃ a ∈ d.entries.keys, valueName a = upcastModuleName ∨ valueName a = package

/-- The owners behind a walk without clashes. -/
def ownersBehind (owners : List (String × String)) : List String → List (String × String)
  | [] => owners
  | name :: rest => ownersBehind ((valueName name, name) :: owners) rest

section Walk

variable {package module first second owner : String} {names earlier : List String}
  {owners : List (String × String)}

/-- **A STEP OF THE WALK**: an interface whose module name is free becomes its owner. -/
theorem checkOwners_cons_of_free {name : String} {rest : List String}
    (h : owners.lookup (valueName name) = none) :
    checkOwners owners (name :: rest) = checkOwners ((valueName name, name) :: owners) rest := by
  rw [checkOwners, h]

/-- A module that is owned already is a clash with its owner. -/
theorem checkOwners_cons_of_owned {name : String} {rest : List String}
    (h : owners.lookup (valueName name) = some owner) :
    checkOwners owners (name :: rest) = .error (.moduleClash (valueName name) owner name) := by
  rw [checkOwners, h]

/-- **THE WHOLE WALK**: it fails over an interface exactly if it passes those in front of it and
then finds an owner. -/
theorem checkOwners_eq_error_iff :
    checkOwners owners names = .error (.moduleClash module first second)
      ↔ ∃ earlier later, names = earlier ++ second :: later
        ∧ checkOwners owners earlier = .ok () ∧ module = valueName second
        ∧ (ownersBehind owners earlier).lookup module = some first := by
  induction names generalizing owners with
  | nil =>
      constructor
      · intro h
        cases h
      · rintro ⟨earlier, later, hsplit, -⟩
        cases earlier <;> cases hsplit
  | cons name rest ih =>
      cases hl : owners.lookup (valueName name) with
      | some owner =>
          rw [checkOwners_cons_of_owned hl]
          constructor
          · intro h
            obtain ⟨rfl, rfl, rfl⟩ := EmitError.moduleClash.inj (Except.error.inj h)
            exact ⟨[], rest, rfl, rfl, rfl, hl⟩
          · rintro ⟨earlier, later, hsplit, hwalk, rfl, hlookup⟩
            cases earlier with
            | nil =>
                obtain ⟨rfl, rfl⟩ := List.cons.inj hsplit
                obtain rfl : owner = first := Option.some.inj (hl.symm.trans hlookup)
                rfl
            | cons other earlier =>
                -- the walk would not have passed the first interface
                obtain ⟨rfl, -⟩ := List.cons.inj hsplit
                rw [checkOwners_cons_of_owned hl] at hwalk
                cases hwalk
      | none =>
          rw [checkOwners_cons_of_free hl, ih]
          constructor
          · rintro ⟨earlier, later, rfl, hwalk, hmodule, hlookup⟩
            refine ⟨name :: earlier, later, rfl, ?_, hmodule, hlookup⟩
            rw [checkOwners_cons_of_free hl]
            exact hwalk
          · rintro ⟨earlier, later, hsplit, hwalk, rfl, hlookup⟩
            cases earlier with
            | nil =>
                obtain ⟨rfl, rfl⟩ := List.cons.inj hsplit
                rw [ownersBehind, hl] at hlookup
                cases hlookup
            | cons other earlier =>
                obtain ⟨rfl, hrest⟩ := List.cons.inj hsplit
                rw [checkOwners_cons_of_free hl] at hwalk
                exact ⟨earlier, later, hrest, hwalk, rfl, hlookup⟩

/-- Behind a walk without clashes the interfaces that were passed own their names, and nothing
else has changed. -/
theorem lookup_ownersBehind (h : checkOwners owners earlier = .ok ()) :
    (ownersBehind owners earlier).lookup module = some owner
      ↔ owner ∈ earlier ∧ valueName owner = module ∨ owners.lookup module = some owner := by
  induction earlier generalizing owners with
  | nil => simp [ownersBehind]
  | cons name rest ih =>
      cases hl : owners.lookup (valueName name) with
      | some other =>
          rw [checkOwners_cons_of_owned hl] at h
          cases h
      | none =>
          rw [checkOwners_cons_of_free hl] at h
          rw [ownersBehind, ih h, List.lookup_cons, List.mem_cons]
          by_cases hname : module = valueName name
          · -- `name` has just become the owner, and nothing was before
            subst hname
            rw [hl, beq_self_eq_true]
            constructor
            · rintro (⟨hmem, heq⟩ | heq)
              · exact .inl ⟨.inr hmem, heq⟩
              · obtain rfl : name = owner := Option.some.inj heq
                exact .inl ⟨.inl rfl, rfl⟩
            · rintro (⟨rfl | hmem, heq⟩ | hnone)
              · exact .inr rfl
              · exact .inl ⟨hmem, heq⟩
              · cases hnone
          · rw [beq_eq_false_iff_ne.mpr hname]
            constructor
            · rintro (⟨hmem, heq⟩ | hold)
              · exact .inl ⟨.inr hmem, heq⟩
              · exact .inr hold
            · rintro (⟨rfl | hmem, heq⟩ | hold)
              · exact absurd heq.symm hname
              · exact .inl ⟨hmem, heq⟩
              · exact .inr hold

/-- At the start the two modules of the package are owned, by themselves. -/
theorem lookup_firstOwners :
    (firstOwners package).lookup module = some owner
      ↔ owner = module ∧ (module = upcastModuleName ∨ module = package) := by
  rw [firstOwners, List.lookup_cons, List.lookup_cons, List.lookup_nil]
  by_cases hupcast : module = upcastModuleName
  · subst hupcast
    rw [beq_self_eq_true]
    constructor
    · intro h
      exact ⟨(Option.some.inj h).symm, .inl rfl⟩
    · rintro ⟨rfl, -⟩
      rfl
  · rw [beq_eq_false_iff_ne.mpr hupcast]
    by_cases hpackage : module = package
    · subst hpackage
      rw [beq_self_eq_true]
      constructor
      · intro h
        exact ⟨(Option.some.inj h).symm, .inr rfl⟩
      · rintro ⟨rfl, -⟩
        rfl
    · rw [beq_eq_false_iff_ne.mpr hpackage]
      constructor
      · intro h
        cases h
      · rintro ⟨-, heq | heq⟩
        · exact absurd heq hupcast
        · exact absurd heq hpackage

/-- **WHAT THE WALK LOOKS UP**: as long as there was no clash, an owner is found exactly if the
module name has one. -/
theorem lookup_iff_owns (h : checkOwners (firstOwners package) earlier = .ok ()) :
    (ownersBehind (firstOwners package) earlier).lookup module = some owner
      ↔ Owns package earlier owner module := by
  rw [lookup_ownersBehind h, lookup_firstOwners]
  constructor
  · rintro (⟨hmem, rfl⟩ | ⟨rfl, rfl | rfl⟩)
    · exact .interface hmem
    · exact .upcasts
    · exact .entryPoint
  · rintro (_ | _ | hmem)
    · exact .inr ⟨rfl, .inl rfl⟩
    · exact .inr ⟨rfl, .inr rfl⟩
    · exact .inl ⟨hmem, rfl⟩

/-- What passes as a whole passes as far as one likes. -/
theorem checkOwners_front {later : List String}
    (h : checkOwners owners (earlier ++ later) = .ok ()) :
    checkOwners owners earlier = .ok () := by
  obtain ⟨hnodup, hfree⟩ := (checkOwners_eq_ok_iff _ _).mp h
  rw [List.map_append] at hnodup
  refine (checkOwners_eq_ok_iff _ _).mpr ⟨hnodup.of_append_left, ?_⟩
  intro name hname
  exact hfree name (List.mem_append_left later hname)

/-- The walk passes exactly if no interface comes to an owned name. -/
theorem walk_eq_ok_iff :
    checkOwners (firstOwners package) names = .ok () ↔ AllApart package names := by
  constructor
  · rintro h before name after rfl owner howns
    have hbefore := checkOwners_front h
    have hclash : checkOwners (firstOwners package) (before ++ name :: after)
        = .error (.moduleClash (valueName name) owner name) :=
      checkOwners_eq_error_iff.mpr
        ⟨before, after, rfl, hbefore, rfl, (lookup_iff_owns hbefore).mpr howns⟩
    rw [h] at hclash
    cases hclash
  · intro h
    cases hwalk : checkOwners (firstOwners package) names with
    | ok u => rfl
    | error e =>
        obtain ⟨module, first, second, rfl⟩ := clash_of_error hwalk
        obtain ⟨earlier, later, hsplit, hok, rfl, hlookup⟩ := checkOwners_eq_error_iff.mp hwalk
        exact absurd ((lookup_iff_owns hok).mp hlookup) (h earlier second later hsplit first)

/-- The walk fails exactly over the first interface that comes to an owned name. -/
theorem walk_eq_error_iff :
    checkOwners (firstOwners package) names = .error (.moduleClash module first second)
      ↔ IsFirstClash package names module first second := by
  rw [checkOwners_eq_error_iff]
  constructor
  · rintro ⟨earlier, later, hsplit, hok, hmodule, hlookup⟩
    exact ⟨earlier, later, hsplit, walk_eq_ok_iff.mp hok, hmodule, (lookup_iff_owns hok).mp hlookup⟩
  · rintro ⟨earlier, later, hsplit, hapart, hmodule, howns⟩
    have hok := walk_eq_ok_iff.mpr hapart
    exact ⟨earlier, later, hsplit, hok, hmodule, (lookup_iff_owns hok).mpr howns⟩

end Walk

/-! ## Emission -/

section Emission

variable {d : Document} {package module first second : String}

theorem emit_of_not_isModuleName (h : isModuleName package = false) :
    emit d package = .error (.invalidPackageName package) := by
  rw [emit, if_neg (by rw [h]; exact Bool.false_ne_true)]

/-- With a package that can name a module, emission fails over what the walk fails over. -/
theorem emit_eq_error_iff (h : isModuleName package = true) {e : EmitError} :
    emit d package = .error e ↔ checkOwners (firstOwners package) d.entries.keys = .error e := by
  rw [emit, if_pos h]
  cases checkOwners (firstOwners package) d.entries.keys with
  | error e' =>
      show Except.error e' = Except.error e ↔ Except.error e' = Except.error e
      rw [Except.error.injEq, Except.error.injEq]
  | ok u =>
      constructor
      · intro heq
        cases heq
      · intro heq
        cases heq

/-- A document without clashes is emitted, and only such a document. -/
theorem emit_eq_ok_iff (h : isModuleName package = true) :
    emit d package = .ok (packageFiles d package) ↔ ¬ HasClash d package := by
  -- The walk over the names stops at the first owner it finds taken, so it gets through just
  -- where no two names meet.
  constructor
  · rintro hemit (⟨a, ha, b, hb, hne, heq⟩ | ⟨a, ha, htaken⟩)
    · obtain ⟨-, hnodup, -⟩ := owners_of_emit hemit
      exact hne (List.inj_on_of_nodup_map hnodup ha hb heq)
    · obtain ⟨-, -, hfree⟩ := owners_of_emit hemit
      obtain ⟨hupcast, hpackage⟩ := hfree a ha
      exact htaken.elim hupcast hpackage
  · intro hclash
    have hkeys : d.entries.keys.Nodup := d.entries.nodup
    refine emit_of_owners h ?_ ?_
    · rw [List.nodup_map_iff_inj_on hkeys]
      intro a ha b hb heq
      by_contra hne
      exact hclash (.inl ⟨a, ha, b, hb, hne, heq⟩)
    · intro a ha
      constructor
      · intro heq
        exact hclash (.inr ⟨a, ha, .inl heq⟩)
      · intro heq
        exact hclash (.inr ⟨a, ha, .inr heq⟩)

/-- Emission fails over an interface exactly if there is a clash. -/
theorem exists_clash_iff (h : isModuleName package = true) :
    (∃ module first second, emit d package = .error (.moduleClash module first second))
      ↔ HasClash d package := by
  constructor
  · rintro ⟨module, first, second, hemit⟩
    by_contra hclash
    rw [(emit_eq_ok_iff h).mpr hclash] at hemit
    cases hemit
  · intro hclash
    cases hwalk : checkOwners (firstOwners package) d.entries.keys with
    | ok u => exact absurd hclash ((emit_eq_ok_iff h).mp (emit_eq_ok h hwalk))
    | error e =>
        obtain ⟨module, first, second, rfl⟩ := clash_of_error hwalk
        exact ⟨module, first, second, (emit_eq_error_iff h).mpr hwalk⟩

/-- The name of the package is refused exactly if it cannot name a module. -/
theorem exists_invalidPackageName_iff :
    (∃ name, emit d package = .error (.invalidPackageName name))
      ↔ isModuleName package = false := by
  constructor
  · rintro ⟨name, hemit⟩
    rw [Bool.eq_false_iff]
    intro hpackage
    obtain ⟨_, _, _, heq⟩ := clash_of_error ((emit_eq_error_iff hpackage).mp hemit)
    cases heq
  · intro h
    exact ⟨package, emit_of_not_isModuleName h⟩

end Emission

/-- **THE OUTCOME OF EMISSION**: it fails over the package exactly if this cannot name a module.
Else it fails over an interface exactly if there is a clash, and names the first interface that
comes to an owned module name together with its owner.  Else there is one file for each interface
in the order of the document, then the module of upcasts, and last the entry point. -/
theorem emit_outcome (d : Document) (package : String) :
    ((∃ name, emit d package = .error (.invalidPackageName name)) ↔ isModuleName package = false)
      ∧ (isModuleName package = false →
          emit d package = .error (.invalidPackageName package))
      ∧ (isModuleName package = true →
          ((∃ module first second, emit d package = .error (.moduleClash module first second))
            ↔ HasClash d package)
          ∧ (∀ module first second, emit d package = .error (.moduleClash module first second)
              ↔ IsFirstClash package d.entries.keys module first second)
          ∧ (¬ HasClash d package → ∃ files, emit d package = .ok files
              ∧ files = (d.entries.keys.map fun i => (interfaceModule d i).file)
                ++ [(upcastModule d).file, (EntryPoint.ofModules package (modules d)).file]
              ∧ files.map EmittedFile.path
                = (d.entries.keys.map fun i => "src/" ++ valueName i ++ ".gleam")
                  ++ ["src/upcast.gleam", "src/" ++ package ++ ".gleam"])) := by
  refine ⟨exists_invalidPackageName_iff, emit_of_not_isModuleName,
    fun h => ⟨exists_clash_iff h, ?_, ?_⟩⟩
  · intro module first second
    rw [emit_eq_error_iff h, walk_eq_error_iff]
  · intro hclash
    refine ⟨_, (emit_eq_ok_iff h).mpr hclash, packageFiles_eq d package, ?_⟩
    rw [map_path_packageFiles, List.map_append, List.map_map]
    rfl

/-- A document in which three interfaces come to one module name. -/
def threeElements : Document :=
  { entries := ⟨[("Node", []), ("HTMLElement", []), ("HtmlElement", []), ("html_element", [])],
      by decide⟩
    parents := Keyed.empty }

/-- A package that cannot name a module is refused; of the three interfaces the first two are
named; and a document without clashes gets its files. -/
theorem emit_outcome_threeElements :
    isModuleName "My-Pkg" = false
      ∧ emit threeElements "My-Pkg" = .error (.invalidPackageName "My-Pkg")
      ∧ isModuleName "twig" = true
      ∧ emit threeElements "twig"
          = .error (.moduleClash "html_element" "HTMLElement" "HtmlElement")
      ∧ IsFirstClash "twig" threeElements.entries.keys "html_element" "HTMLElement" "HtmlElement"
      ∧ ¬ HasClash nodeAndElement "twig"
      ∧ ∃ files, emit nodeAndElement "twig" = .ok files
        ∧ files.map EmittedFile.path
          = ["src/node.gleam", "src/html_element.gleam", "src/upcast.gleam", "src/twig.gleam"] := by
  have hrefused : isModuleName "My-Pkg" = false := by decide
  have hpackage : isModuleName "twig" = true := by decide
  have hwalk : checkOwners (firstOwners "twig") threeElements.entries.keys
      = .error (.moduleClash "html_element" "HTMLElement" "HtmlElement") := by
    decide +kernel
  have hemit : emit threeElements "twig"
      = .error (.moduleClash "html_element" "HTMLElement" "HtmlElement") :=
    (emit_eq_error_iff hpackage).mpr hwalk
  have hapart : ¬ HasClash nodeAndElement "twig" :=
    (emit_eq_ok_iff hpackage).mp (emit_eq_ok hpackage (by decide +kernel))
  obtain ⟨-, -, hclashing⟩ := emit_outcome threeElements "twig"
  obtain ⟨-, -, hemitted⟩ := emit_outcome nodeAndElement "twig"
  obtain ⟨files, hfiles, -, hpaths⟩ := (hemitted hpackage).2.2 hapart
  refine ⟨hrefused, (emit_outcome threeElements "My-Pkg").2.1 hrefused, hpackage, hemit,
    ((hclashing hpackage).2.1 _ _ _).mp hemit, hapart, files, hfiles, hpaths.trans ?_⟩
  decide +kernel

end Bindery.Gleam
