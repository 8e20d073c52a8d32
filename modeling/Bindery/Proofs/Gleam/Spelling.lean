import Bindery.Gleam.InterfaceModule
import Bindery.Gleam.Upcast
import Bindery.Proofs.Naming.Snake

/-!
# How names are spelled

`valueName` and `typeName` take any text to a name.  What comes out is spelled as Gleam wants it
(`isModuleName_valueName`, `isTypeName_typeName`), whatever the text is: the characters that case
conversion leaves are looked at one by one, and those outside the alphabet do not stay.

A text that is a name of a value already stays what it is, and no other text does
(`valueName_eq_self_iff`).  Its characters are in lower case, so that it is its own snake form.

Names that are put together of names, those of parameters and of upcasts, are names again
(`isModuleName_parameterNames`, `isModuleName_upcastName`): what is put behind a name has an
underscore in it, and reserved words have none.  So all names in the functions of a package are
spelled like this (`isSpelled_functionOfEntry`, `isSpelled_upcastFunction`).
-/

namespace Bindery

open Text

namespace Gleam

/-! ## Names of values -/

/-- Whether a text names a type: a capital, and behind it letters and digits. -/
def isTypeName (name : String) : Bool :=
  startsWith isAsciiUpper name.toList && name.toList.all isAsciiAlnum

/-- What a text that names a module is made of. -/
theorem isModuleName_iff {name : String} :
    isModuleName name = true
      ↔ startsWith isAsciiLower name.toList = true ∧ (∀ c ∈ name.toList, isValueChar c = true)
        ∧ name ∉ reservedWords := by
  rw [isModuleName, Bool.and_eq_true, Bool.and_eq_true, List.all_eq_true, Bool.not_eq_true',
    List.contains_eq_mem, decide_eq_false_iff_not, and_assoc]

/-- The characters of names of values are in lower case. -/
theorem lowerChar_of_isValueChar {c : Char} (h : isValueChar c = true) : lowerChar c = [c] := by
  have hrange : 97 ≤ c.toNat ∧ c.toNat ≤ 122 ∨ 48 ≤ c.toNat ∧ c.toNat ≤ 57 ∨ c.toNat = 95 := by
    rw [isValueChar, Naming.isLowerOrDigit, Bool.or_eq_true, Bool.or_eq_true, beq_iff_eq] at h
    rcases h with (hlower | hdigit) | rfl
    · exact .inl (toNat_of_isAsciiLower hlower)
    · exact .inr (.inl (toNat_of_isAsciiDigit hdigit))
    · exact .inr (.inr rfl)
  exact lowerChar_eq_self (by omega) (isAsciiUpper_eq_false (by omega))

theorem isValueChar_valueChar (c : Char) : isValueChar (valueChar c) = true := by
  rw [valueChar]
  split
  · next h =>
    rw [isValueChar, h]
    rfl
  · rfl

/-- A character of names of values stays what it is. -/
theorem valueChar_eq_self {c : Char} (h : isValueChar c = true) : valueChar c = c := by
  rw [isValueChar, Bool.or_eq_true, beq_iff_eq] at h
  rw [valueChar]
  rcases h with h | rfl
  · rw [if_pos h]
  · rfl

/-- The letters of a name of a value: a small letter, and behind it characters of such names. -/
theorem valueChars_spec (cs : List Char) :
    startsWith isAsciiLower (valueChars cs) = true ∧ ∀ c ∈ valueChars cs, isValueChar c = true := by
  have hword : ∀ c ∈ ((Naming.snakeChars cs).map valueChar).dropWhile (· == '_'),
      isValueChar c = true := by
    intro c hc
    obtain ⟨d, -, rfl⟩ := List.mem_map.mp ((List.dropWhile_sublist _).subset hc)
    exact isValueChar_valueChar d
  rw [valueChars]
  split
  · next h => exact ⟨h, hword⟩
  · exact ⟨rfl, List.forall_mem_cons.mpr ⟨rfl, hword⟩⟩

theorem startsWith_append {p : Char → Bool} {cs : List Char} (h : startsWith p cs = true)
    (more : List Char) : startsWith p (cs ++ more) = true := by
  cases cs with
  | nil => cases h
  | cons c cs => exact h

/-- Reserved words have no underscores. -/
theorem notMem_reservedWords {name : String} (h : '_' ∈ name.toList) : name ∉ reservedWords := by
  have hwords : ∀ w ∈ reservedWords, '_' ∉ w.toList := by decide
  intro hmem
  exact hwords name hmem h

/-- A reserved word gets an underscore, and no reserved word ends in one. -/
theorem avoidReserved_notMem (word : String) : avoidReserved word ∉ reservedWords := by
  rw [avoidReserved]
  split
  · refine notMem_reservedWords ?_
    rw [String.toList_append]
    exact List.mem_append_right _ (List.mem_singleton.mpr rfl)
  · next h =>
    intro hmem
    exact h (List.contains_iff_mem.mpr hmem)

/-- **ANY TEXT GIVES A NAME**: what `valueName` makes of a text names a value and a module. -/
theorem isModuleName_valueName (name : String) : isModuleName (valueName name) = true := by
  obtain ⟨hstart, hchars⟩ := valueChars_spec name.toList
  have hreserved := avoidReserved_notMem (String.ofList (valueChars name.toList))
  rw [isModuleName_iff]
  show startsWith isAsciiLower
      (avoidReserved (String.ofList (valueChars name.toList))).toList = true
    ∧ (∀ c ∈ (avoidReserved (String.ofList (valueChars name.toList))).toList, isValueChar c = true)
    ∧ avoidReserved (String.ofList (valueChars name.toList)) ∉ reservedWords
  -- Avoiding a reserved word only appends, which changes neither the first character nor the
  -- alphabet.
  refine ⟨?_, ?_, hreserved⟩
  · rw [avoidReserved]
    split
    · rw [String.toList_append, String.toList_ofList]
      exact startsWith_append hstart _
    · rw [String.toList_ofList]
      exact hstart
  · rw [avoidReserved]
    split
    · rw [String.toList_append, String.toList_ofList, List.forall_mem_append]
      exact ⟨hchars, List.all_eq_true.mp (by decide)⟩
    · rw [String.toList_ofList]
      exact hchars

/-- The letters of a name of a value stay what they are. -/
theorem valueChars_eq_self {cs : List Char} (hstart : startsWith isAsciiLower cs = true)
    (hchars : ∀ c ∈ cs, isValueChar c = true) : valueChars cs = cs := by
  -- no character is an upper-case letter, so there is no place to cut and nothing to lower
  have hsnake : Naming.snakeChars cs = cs := by
    rw [Naming.snakeChars_eq_self_iff]
    intro c hc
    exact lowerChar_of_isValueChar (hchars c hc)
  have hmap : cs.map valueChar = cs := by
    conv_rhs => rw [← List.map_id cs]
    exact List.map_congr_left fun c hc => valueChar_eq_self (hchars c hc)
  have htrim : cs.dropWhile (· == '_') = cs := by
    cases cs with
    | nil => rfl
    | cons c cs =>
        have hc : (c == '_') = false := by
          rw [beq_eq_false_iff_ne]
          rintro rfl
          exact absurd (show isAsciiLower '_' = true from hstart) (by decide)
        rw [List.dropWhile_cons, hc]
        rfl
  rw [valueChars, hsnake, hmap, htrim]
  exact if_pos hstart

/-- **THE FIXED POINTS**: a text stays what it is exactly if it names a module. -/
theorem valueName_eq_self_iff {name : String} :
    valueName name = name ↔ isModuleName name = true := by
  constructor
  · intro heq
    rw [← heq]
    exact isModuleName_valueName name
  · intro h
    obtain ⟨hstart, hchars, hreserved⟩ := isModuleName_iff.mp h
    rw [valueName, valueChars_eq_self hstart hchars, String.ofList_toList, avoidReserved,
      if_neg fun hmem => hreserved (List.contains_iff_mem.mp hmem)]

theorem valueName_valueName (name : String) : valueName (valueName name) = valueName name :=
  valueName_eq_self_iff.mpr (isModuleName_valueName name)

/-! ## Names of types -/

/-- Any text gives a name of a type. -/
theorem isTypeName_typeName (name : String) : isTypeName (typeName name) = true := by
  have hword :
      ∀ c ∈ (Naming.pascalChars name.toList).filter isAsciiAlnum, isAsciiAlnum c = true := by
    intro c hc
    exact (List.mem_filter.mp hc).2
  rw [isTypeName, typeName, String.toList_ofList, Bool.and_eq_true, List.all_eq_true, typeChars]
  split
  · next h => exact ⟨h, hword⟩
  · exact ⟨rfl, List.forall_mem_cons.mpr ⟨rfl, hword⟩⟩

/-! ## Names that are put together -/

section Composed

variable {name more : String}

/-- Behind a name may stand what has the characters of names, and an underscore among them. -/
theorem isModuleName_append (h : isModuleName name = true)
    (hmore : ∀ c ∈ more.toList, isValueChar c = true) (hmark : '_' ∈ more.toList) :
    isModuleName (name ++ more) = true := by
  obtain ⟨hstart, hchars, -⟩ := isModuleName_iff.mp h
  refine isModuleName_iff.mpr ⟨?_, ?_, notMem_reservedWords ?_⟩
  · rw [String.toList_append]
    exact startsWith_append hstart _
  · rw [String.toList_append, List.forall_mem_append]
    exact ⟨hchars, hmore⟩
  · rw [String.toList_append]
    exact List.mem_append_right _ hmark

theorem isModuleName_append_underscore (h : isModuleName name = true) :
    isModuleName (name ++ "_") = true :=
  isModuleName_append h (List.all_eq_true.mp (by decide)) (by decide)

theorem isModuleName_freshName (taken : List String) (h : isModuleName name = true) :
    isModuleName (freshName taken name) = true := by
  fun_induction freshName taken name with
  | case1 taken name _ _ ih => exact ih (isModuleName_append_underscore h)
  | case2 => exact h

/-- All parameters have names that can be written. -/
theorem isModuleName_parameterNames (taken names : List String) :
    ∀ name ∈ parameterNames taken names, isModuleName name = true := by
  induction names generalizing taken with
  | nil => exact fun name hname => absurd hname List.not_mem_nil
  | cons name names ih =>
      rw [parameterNames, List.forall_mem_cons]
      exact ⟨isModuleName_freshName taken (isModuleName_valueName name), ih _⟩

theorem length_parameterNames (taken names : List String) :
    (parameterNames taken names).length = names.length := by
  induction names generalizing taken with
  | nil => rfl
  | cons name names ih => rw [parameterNames, List.length_cons, List.length_cons, ih]

theorem isModuleName_upcastName (pair : String × String) :
    isModuleName (upcastName pair) = true := by
  have htarget := (isModuleName_iff.mp (isModuleName_valueName pair.2)).2.1
  rw [upcastName, String.append_assoc]
  refine isModuleName_append (isModuleName_valueName pair.1) ?_ ?_
  · rw [String.toList_append, List.forall_mem_append]
    exact ⟨List.all_eq_true.mp (by decide), htarget⟩
  · rw [String.toList_append]
    exact List.mem_append_left _ (by decide)

end Composed

/-! ## The names in functions -/

/-- The handle in a type is named like a type. -/
def TypeExpr.IsSpelled : TypeExpr → Prop
  | .value _ => True
  | .handle name => isTypeName name = true

/-- The names in the head of a function are names of values and of types. -/
structure FunctionDef.IsSpelled (f : FunctionDef) : Prop where
  name : isModuleName f.name = true
  parameters : ∀ p ∈ f.parameters, isModuleName p.1 = true ∧ p.2.IsSpelled
  result : f.result.IsSpelled

@[simp] theorem name_functionOfEntry (interface : String) (e : Entry) :
    (functionOfEntry interface e).name = valueName e.name := by
  cases e <;> simp only [functionOfEntry]

theorem isModuleName_handleParameter : isModuleName handleParameter = true := by decide

/-- So do those of a method, with types that are spelled. -/
theorem isSpelled_methodParameters (ps : List Parameter) :
    ∀ p ∈ methodParameters ps, isModuleName p.1 = true ∧ p.2.IsSpelled := by
  intro p hp
  obtain ⟨hname, htype⟩ := List.of_mem_zip hp
  obtain ⟨q, -, heq⟩ := List.mem_map.mp htype
  refine ⟨isModuleName_parameterNames _ _ p.1 hname, ?_⟩
  rw [← heq]
  exact True.intro

/-- **ANY ENTRY GIVES NAMES**: whatever an entry and its interface are named, the names in the
function of the entry are names of values and of types. -/
theorem isSpelled_functionOfEntry (interface : String) (e : Entry) :
    (functionOfEntry interface e).IsSpelled := by
  have hname : isModuleName (functionOfEntry interface e).name = true := by
    rw [name_functionOfEntry]
    exact isModuleName_valueName e.name
  have hhandle : isModuleName handleParameter = true ∧ (handleType interface).IsSpelled :=
    ⟨isModuleName_handleParameter, isTypeName_typeName interface⟩
  refine ⟨hname, ?_, ?_⟩
  · cases e with
    | method m => exact List.forall_mem_cons.mpr ⟨hhandle, isSpelled_methodParameters m.parameters⟩
    | property p => exact List.forall_mem_singleton.mpr hhandle
    | event p =>
        have hcallback : isModuleName callbackParameter = true := by decide
        refine List.forall_mem_cons.mpr ⟨hhandle, ?_⟩
        exact List.forall_mem_singleton.mpr ⟨hcallback, True.intro⟩
  · cases e <;> exact True.intro

theorem isSpelled_upcastFunction (pair : String × String) : (upcastFunction pair).IsSpelled := by
  refine ⟨isModuleName_upcastName pair, ?_, isTypeName_typeName pair.2⟩
  exact List.forall_mem_singleton.mpr
    ⟨isModuleName_handleParameter, isTypeName_typeName pair.1⟩

end Gleam

end Bindery
