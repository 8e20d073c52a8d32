import Bindery.Proofs.Gleam.PackageOutline
import Bindery.Proofs.Gleam.Spelling
import Mathlib.Order.Bounds.Defs

/-!
# The names of parameters

The parameters of a method are printed behind the handle, one after the other.  A name that is
taken, by the handle or by a parameter in front of it, gets underscores until it is free.  Since
declared names may end with underscores themselves, what is taken has to be looked up again for
each parameter.

The loop that looks for a free name is told as a relation (`Renames`), so that its end is
something to prove: it ends with `freshName` and with nothing else (`renames_iff`), and what it
ends with has as few underscores as it takes (`Renames.isLeast`).  The loop in the program drops
a name from those that are taken once it has met it, which does not change its run, because the
names that come later are longer.

The headline is `printed_parameters`.
-/

namespace Bindery.Gleam

/-! ## The renaming loop -/

/-- The loop from a name to the one that it ends with: as long as the name is taken, it gets an
underscore. -/
inductive Renames (taken : List String) : String → String → Prop where
  | done {name : String} (free : name ∉ taken) : Renames taken name name
  | again {name result : String} (met : name ∈ taken)
      (rest : Renames taken (name ++ "_") result) : Renames taken name result

/-- A name with underscores behind it. -/
def underscored (name : String) (n : Nat) : String := name ++ String.ofList (List.replicate n '_')

/-- The name that is printed for another one, next to names that are taken: the loop ends with
it, and it has the fewest underscores of those that are free. -/
structure IsRenamed (taken : List String) (name printed : String) : Prop where
  loop : ∀ result, Renames taken name result ↔ result = printed
  least : ∃ n, printed = underscored name n ∧ IsLeast {k | underscored name k ∉ taken} n

section Loop

variable {taken other : List String} {name result : String}

theorem underscored_zero (name : String) : underscored name 0 = name := String.append_empty

/-- One underscore, and then the others. -/
theorem underscored_append (name : String) (n : Nat) :
    underscored (name ++ "_") n = underscored name (n + 1) := by
  have hfirst : "_" ++ String.ofList (List.replicate n '_')
      = String.ofList (List.replicate (n + 1) '_') := by
    rw [List.replicate_succ, ← List.singleton_append, String.ofList_append]
  rw [underscored, underscored, String.append_assoc, hfirst]

namespace Renames

/-- Where the loop ends the name is free, and no name on the way was. -/
theorem isLeast (h : Renames taken name result) :
    ∃ n, result = underscored name n ∧ IsLeast {k | underscored name k ∉ taken} n := by
  -- The renaming stops at the first free name, and each step before it met a taken one.
  induction h with
  | @done name free =>
      refine ⟨0, (underscored_zero name).symm, ?_, fun k _ => Nat.zero_le k⟩
      show underscored name 0 ∉ taken
      rw [underscored_zero]
      exact free
  | @again name result met rest ih =>
      obtain ⟨n, hresult, hfree, hleast⟩ := ih
      refine ⟨n + 1, hresult.trans (underscored_append name n), ?_, ?_⟩
      · show underscored name (n + 1) ∉ taken
        rw [← underscored_append]
        exact hfree
      · intro k hk
        cases k with
        | zero =>
            have hname : underscored name 0 ∉ taken := hk
            rw [underscored_zero] at hname
            exact absurd met hname
        | succ k =>
            have hname : underscored name (k + 1) ∉ taken := hk
            rw [← underscored_append] at hname
            exact Nat.succ_le_succ (hleast hname)

/-- The name that is given is not taken. -/
theorem notMem (h : Renames taken name result) : result ∉ taken := by
  induction h with
  | done free => exact free
  | again met rest ih => exact ih

/-- The loop looks at names only that are no shorter than the one it begins with. -/
theorem congr (h : Renames taken name result)
    (hsame : ∀ n : String, name.length ≤ n.length → (n ∈ taken ↔ n ∈ other)) :
    Renames other name result := by
  induction h with
  | @done name free =>
      exact .done fun hmem => free ((hsame name le_rfl).mpr hmem)
  | @again name result met rest ih =>
      refine .again ((hsame name le_rfl).mp met) (ih ?_)
      intro n hn
      refine hsame n (le_trans ?_ hn)
      rw [String.length_append]
      exact Nat.le_add_right _ _

/-- No other name is given. -/
theorem unique {result' : String} (h : Renames taken name result)
    (h' : Renames taken name result') :
    result = result' := by
  induction h with
  | done free =>
      cases h' with
      | done => rfl
      | again met => exact absurd met free
  | again met rest ih =>
      cases h' with
      | done free => exact absurd met free
      | again _ rest' => exact ih rest'

end Renames

/-- **THE LOOP ENDS**: from any name next to any names the loop ends with the fresh name. -/
theorem renames_freshName (taken : List String) (name : String) :
    Renames taken name (freshName taken name) := by
  fun_induction freshName taken name with
  | case1 taken name met hlt ih =>
      -- the name that is dropped is too short to be met again
      refine .again met (ih.congr ?_)
      intro n hn
      refine List.mem_erase_of_ne ?_
      rintro rfl
      rw [String.length_append] at hn
      exact absurd hn (Nat.not_succ_le_self _)
  | case2 taken name free => exact .done free

/-- The loop gives the name that is searched for. -/
theorem renames_iff : Renames taken name result ↔ result = freshName taken name := by
  constructor
  · intro h
    exact h.unique (renames_freshName taken name)
  · rintro rfl
    exact renames_freshName taken name

theorem isRenamed_freshName (taken : List String) (name : String) :
    IsRenamed taken name (freshName taken name) :=
  ⟨fun _ => renames_iff, (renames_freshName taken name).isLeast⟩

/-- It does not matter in which order names are taken. -/
theorem IsRenamed.congr {printed : String} (h : IsRenamed taken name printed)
    (hsame : ∀ n, n ∈ taken ↔ n ∈ other) : IsRenamed other name printed := by
  have hloop : Renames other name printed :=
    ((h.loop printed).mpr rfl).congr fun n _ => hsame n
  refine ⟨?_, hloop.isLeast⟩
  intro result
  constructor
  · intro hresult
    exact hresult.unique hloop
  · rintro rfl
    exact hloop

end Loop

/-! ## The run over the parameters -/

section Run

variable {taken names : List String} {name : String}

/-- A printed name is neither taken nor printed before. -/
theorem nodup_parameterNames (taken names : List String) :
    (parameterNames taken names).Nodup ∧ ∀ name ∈ parameterNames taken names, name ∉ taken := by
  induction names generalizing taken with
  | nil => exact ⟨List.nodup_nil, fun name hname => absurd hname List.not_mem_nil⟩
  | cons name names ih =>
      obtain ⟨hnodup, hfree⟩ := ih (freshName taken (valueName name) :: taken)
      rw [parameterNames, List.nodup_cons, List.forall_mem_cons]
      refine ⟨⟨?_, hnodup⟩, (renames_freshName taken (valueName name)).notMem, ?_⟩
      · intro hmem
        exact hfree _ hmem List.mem_cons_self
      · intro printed hprinted hmem
        exact hfree printed hprinted (List.mem_cons_of_mem _ hmem)

/-- **EACH NAME NEXT TO THOSE IN FRONT OF IT**: what is printed for a declared name is the name
that the loop ends with next to the names taken before and to those printed in front of it. -/
theorem isRenamed_parameterNames {k : Nat} (h : names[k]? = some name) :
    ∃ printed, (parameterNames taken names)[k]? = some printed
      ∧ IsRenamed (taken ++ (parameterNames taken names).take k) (valueName name) printed := by
  induction names generalizing taken k with
  | nil => cases h
  | cons first names ih =>
      rw [parameterNames]
      cases k with
      | zero =>
          obtain rfl : first = name := Option.some.inj h
          refine ⟨freshName taken (valueName first), rfl, ?_⟩
          rw [List.take_zero, List.append_nil]
          exact isRenamed_freshName taken (valueName first)
      | succ k =>
          obtain ⟨printed, hprinted, hrenamed⟩ :=
            @ih (freshName taken (valueName first) :: taken) k h
          refine ⟨printed, hprinted, hrenamed.congr ?_⟩
          intro n
          rw [List.take_succ_cons, List.cons_append, List.mem_cons]
          rw [List.mem_append, List.mem_append, List.mem_cons, or_left_comm]

/-- The parameters in the head of a method: the handle, and the others under their names. -/
theorem map_fst_parameters (interface : String) (m : MethodEntry) :
    (functionOfEntry interface (.method m)).signature.parameters.map Prod.fst
      = handleParameter :: parameterNames [handleParameter] (m.parameters.map Parameter.name) := by
  have hlength : (parameterNames [handleParameter] (m.parameters.map Parameter.name)).length
      ≤ (m.parameters.map fun p => declaredType p.typeText).length := by
    rw [length_parameterNames, List.length_map, List.length_map]
  show ((handleFirst interface :: methodParameters m.parameters).map
    fun p => (p.1, p.2.ref)).map Prod.fst = _
  rw [List.map_map]
  show handleParameter :: (methodParameters m.parameters).map Prod.fst = _
  rw [methodParameters, List.map_fst_zip hlength]

end Run

/-! ## The headline -/

/-- **THE PARAMETERS OF A METHOD**: the head that is printed for a method names the handle and
then one parameter for each declared one.  The names are different and are names of values, and
each is the declared name with the fewest underscores that keep it from the names in front of it:
the loop that looks for it ends there. -/
theorem printed_parameters (interface : String) (m : MethodEntry) :
    ∃ s names, (functionOfEntry interface (.method m)).head
          ∈ (functionOfEntry interface (.method m)).code
      ∧ Item.ofTokens (tokens (functionOfEntry interface (.method m)).head.toList)
          = some (.function s)
      ∧ s.parameters.map Prod.fst = handleParameter :: names
      ∧ names.length = m.parameters.length
      ∧ names.Nodup ∧ handleParameter ∉ names
      ∧ (∀ name ∈ names, isModuleName name = true)
      ∧ ∀ (k : Nat) (p : Parameter), m.parameters[k]? = some p →
          ∃ printed, names[k]? = some printed
            ∧ IsRenamed (handleParameter :: names.take k) (valueName p.name) printed := by
  obtain ⟨hread, -⟩ := ofTokens_head (isNamed_functionOfEntry interface (.method m))
  obtain ⟨hnodup, hfree⟩ :=
    nodup_parameterNames [handleParameter] (m.parameters.map Parameter.name)
  refine ⟨_, _, List.mem_cons_of_mem _ List.mem_cons_self, hread, map_fst_parameters interface m,
    ?_, hnodup, ?_, isModuleName_parameterNames _ _, ?_⟩
  · rw [length_parameterNames, List.length_map]
  · intro hmem
    exact hfree _ hmem List.mem_cons_self
  · intro k p hp
    have hname : (m.parameters.map Parameter.name)[k]? = some p.name := by
      rw [List.getElem?_map, hp]
      rfl
    exact isRenamed_parameterNames hname

/-- A method with three parameters that are named like the handle, more or less. -/
def crowdedMethod : MethodEntry :=
  .new "Thing" "use"
    [⟨"el", "Node", false, false⟩, ⟨"el_", "number", false, false⟩, ⟨"EL", "any", false, false⟩]
    "boolean"

/-- Its parameters are printed with one, two and three underscores. -/
theorem printed_parameters_crowded :
    crowdedMethod.parameters.map (fun p => valueName p.name) = ["el", "el_", "el"]
      ∧ ∃ s, Item.ofTokens (tokens (functionOfEntry "Thing" (.method crowdedMethod)).head.toList)
          = some (.function s)
        ∧ s.parameters.map Prod.fst = ["el", "el_", "el__", "el___"] := by
  have hdeclared : valueName "el" = "el" ∧ valueName "el_" = "el_" ∧ valueName "EL" = "el" := by
    decide +kernel
  obtain ⟨hel, hel_, hEL⟩ := hdeclared
  obtain ⟨s, names, -, hread, hparameters, hlength, -, -, -, hrenamed⟩ :=
    printed_parameters "Thing" crowdedMethod
  -- where the loop ends is told by the names in front
  have hends : ∀ (k : Nat) (p : Parameter) (result : String),
      crowdedMethod.parameters[k]? = some p →
      Renames (handleParameter :: names.take k) (valueName p.name) result →
      names[k]? = some result := by
    intro k p result hp hrun
    obtain ⟨printed, hprinted, hnext⟩ := hrenamed k p hp
    rw [hprinted, (hnext.loop result).mp hrun]
  obtain ⟨first, second, third, rfl⟩ := List.length_eq_three.mp hlength
  obtain rfl : first = "el_" := by
    refine Option.some.inj (hends 0 _ _ rfl ?_)
    show Renames ["el"] (valueName "el") "el_"
    rw [hel]
    exact .again (by decide) (.done (by decide))
  obtain rfl : second = "el__" := by
    refine Option.some.inj (hends 1 _ _ rfl ?_)
    show Renames ["el", "el_"] (valueName "el_") "el__"
    rw [hel_]
    exact .again (by decide) (.done (by decide))
  obtain rfl : third = "el___" := by
    refine Option.some.inj (hends 2 _ _ rfl ?_)
    show Renames ["el", "el_", "el__"] (valueName "EL") "el___"
    rw [hEL]
    exact .again (by decide) (.again (by decide) (.again (by decide) (.done (by decide))))
  refine ⟨?_, s, hread, hparameters⟩
  show [valueName "el", valueName "el_", valueName "EL"] = _
  rw [hel, hel_, hEL]

end Bindery.Gleam
