import Bindery.Proofs.Declaration.Scanning
import Bindery.Proofs.Declaration.Spelling

/-!
# Written declarations

Declarations are written in one layout: members and parameters in the order of the
declaration, each member in its line behind a space with a semicolon at its end,

```
interface N extends P, ns.Q { name(this: U, p?: T, ...q: T): R; readonly prop?: T; }
```

What can be written so are plain declarations (`Declaration.IsPlain`): names are
identifiers, types are texts that the reader takes as they are (`isTypeText`), and nothing
is described.
-/

namespace Bindery

open Text Declaration

/-! ## The layout -/

/-- A mark or word that is there or not. -/
def optionally (b : Bool) (cs : List Char) : List Char := if b then cs else []

/-- A parameter with its type. -/
def Parameter.written (p : Parameter) : List Char :=
  optionally p.rest ['.', '.', '.'] ++ p.name.toList ++ optionally p.optional ['?']
    ++ ':' :: ' ' :: p.typeText.toList

/-- What stands between the parentheses of a method: the parameters, behind a parameter
`this` if the method has a type for it. -/
def MethodMember.listed (m : MethodMember) : List Parameter :=
  (m.thisType.map fun type => ⟨"this", type, false, false⟩).toList ++ m.parameters

/-- A member up to its semicolon. -/
def Member.written : Member → List Char
  | .method m =>
      m.name.toList ++ '(' :: joinWith [',', ' '] (m.listed.map Parameter.written)
        ++ ')' :: ':' :: ' ' :: m.returnType.toList ++ [';']
  | .property p =>
      optionally p.readonly "readonly ".toList ++ p.name.toList ++ optionally p.optional ['?']
        ++ ':' :: ' ' :: p.typeText.toList ++ [';']

/-- The clause that names the parents, behind a space. -/
def writtenClause (parents : List String) : List Char :=
  optionally (!parents.isEmpty)
    (" extends ".toList ++ joinWith [',', ' '] (parents.map String.toList))

/-- A declaration. -/
def Declaration.written (d : Declaration) : List Char :=
  "interface ".toList ++ d.name.toList ++ writtenClause d.parents ++ ' ' :: '\x7b' ::
    (d.members.flatMap fun m => ' ' :: m.written) ++ [' ', '\x7d']

/-- Declarations one after another, each with a gap behind it. -/
def writtenAll (gap : List Char) (ds : List Declaration) : String :=
  String.ofList (ds.flatMap fun d => d.written ++ gap)

/-! ## What can be written -/

/-- Whether the characters make up an identifier. -/
def isIdentifier : List Char → Bool
  | [] => false
  | c :: cs => isIdentifierStart c && cs.all isIdentifierPart

/-- Whether the text is a name of a parent: identifiers with dots between them. -/
def isParentName (s : String) : Bool := (splitWhere (· == '.') s.toList).all isIdentifier

/-- Whether the text is a type as the reader keeps it: some whole tokens without comments,
with one space at most between them, which close the brackets that they open and hold
nothing outside brackets that would end the type in its place. -/
def isTypeText (place : TypePlace) (s : String) : Bool :=
  !s.toList.isEmpty && collapse s.toList == s.toList
    && match pieces 0 s.toList with
      | .error _ => false
      | .ok ps => ps.all (!·.isComment) && isComplete place 0 (tokensOf 0 ps)

/-- A type text is scanned to tokens that complete it. -/
theorem isTypeText_iff {place : TypePlace} {s : String} :
    isTypeText place s = true ↔ s.toList ≠ [] ∧ collapse s.toList = s.toList
      ∧ ∃ ts, Scans 0 [] s.toList ts ∧ isComplete place 0 ts = true := by
  have hcomments : ∀ ps : List Piece,
      (ps.all (!·.isComment) = true ↔ ∀ p ∈ ps, p.isComment = false) := fun ps => by simp
  rw [isTypeText, Bool.and_eq_true, Bool.and_eq_true, beq_iff_eq, Bool.not_eq_true',
    List.isEmpty_eq_false_iff, and_assoc]
  refine and_congr_right fun _ => and_congr_right fun _ => ⟨fun h => ?_, ?_⟩
  · split at h
    · cases h
    next ps hps =>
    rw [Bool.and_eq_true, hcomments] at h
    obtain ⟨ts, hts⟩ := scans_of_pieces hps h.1 0 []
    obtain ⟨ps', hps', -, htokens⟩ := hts.tokensOf
    rw [hps, Except.ok.injEq] at hps'
    rw [← hps'] at htokens
    exact ⟨ts, hts, by rw [← htokens]; exact h.2⟩
  · rintro ⟨ts, hts, hcomplete⟩
    obtain ⟨ps, hps, hnone, htokens⟩ := hts.tokensOf
    simp only [hps, Bool.and_eq_true, hcomments, htokens]
    exact ⟨hnone, hcomplete⟩

/-- The parameter has a name and a type. -/
structure Parameter.IsPlain (p : Parameter) : Prop where
  name : isIdentifier p.name.toList = true
  type : isTypeText .parameter p.typeText = true

/-- The method is not called `new`, and its first parameter is not called `this` unless the
dots stand before it or the method has a type for `this`. -/
structure MethodMember.IsPlain (m : MethodMember) : Prop where
  name : isIdentifier m.name.toList = true
  notNew : m.name ≠ "new"
  parameters : ∀ p ∈ m.parameters, p.IsPlain
  thisType : ∀ type ∈ m.thisType, isTypeText .parameter type = true
  leading : m.thisType = none → ∀ p ∈ m.parameters.head?, p.rest = false → p.name ≠ "this"
  type : isTypeText .member m.returnType = true
  doc : m.doc = none

/-- The property has a name and a type. -/
structure PropertyMember.IsPlain (p : PropertyMember) : Prop where
  name : isIdentifier p.name.toList = true
  type : isTypeText .member p.typeText = true
  doc : p.doc = none

/-- The member is a plain method or property. -/
def Member.IsPlain : Member → Prop
  | .method m => m.IsPlain
  | .property p => p.IsPlain

/-- The declaration has a name, names of parents and plain members. -/
structure Declaration.IsPlain (d : Declaration) : Prop where
  name : isIdentifier d.name.toList = true
  parents : ∀ parent ∈ d.parents, isParentName parent = true
  members : ∀ m ∈ d.members, m.IsPlain

/-! ## The parameters of a method -/

/-- Once there is a parameter or a type for `this`, parameters are taken in as they are. -/
theorem foldl_add_of_taken {l : ParameterList} (h : l.parameters ≠ [] ∨ l.thisType ≠ none)
    (ps : List Parameter) :
    ps.foldl ParameterList.add l = { l with parameters := l.parameters ++ ps } := by
  induction ps generalizing l with
  | nil => simp
  | cons p ps ih =>
      have hadd : l.add p = { l with parameters := l.parameters ++ [p] } := by
        rw [ParameterList.add, if_neg]
        rcases h with h | h
        · simp [h]
        · simp [h]
      rw [List.foldl_cons, hadd, ih (.inl (by simp))]
      simp

namespace MethodMember.IsPlain

variable {m : MethodMember}

/-- Every parameter that is written out is plain, `this` among them. -/
theorem listed (h : m.IsPlain) : ∀ p ∈ m.listed, p.IsPlain := by
  intro p hp
  rw [MethodMember.listed, List.mem_append, Option.mem_toList, Option.map_eq_some_iff] at hp
  rcases hp with ⟨type, htype, rfl⟩ | hp
  · exact ⟨show isIdentifier "this".toList = true by decide, h.thisType type htype⟩
  · exact h.parameters p hp

/-- The type of `this` and the parameters are told apart again. -/
theorem foldl_add_listed (h : m.IsPlain) :
    m.listed.foldl ParameterList.add ⟨[], none⟩ = ⟨m.parameters, m.thisType⟩ := by
  have hleading := h.leading
  rw [MethodMember.listed]
  -- The first parameter is taken for the receiver only where none is there yet, so the written
  -- receiver protects the ones behind it.
  cases hthis : m.thisType with
  | some type => exact foldl_add_of_taken (l := ⟨[], some type⟩) (.inr (by simp)) m.parameters
  | none =>
      cases hps : m.parameters with
      | nil => rfl
      | cons p ps =>
          rw [hthis, hps] at hleading
          have hp := hleading rfl p rfl
          have hadd : ParameterList.add ⟨[], none⟩ p = ⟨[p], none⟩ := by
            rw [ParameterList.add, if_neg]
            · rfl
            · intro hcond
              simp only [Bool.and_eq_true, beq_iff_eq, Bool.not_eq_true'] at hcond
              exact hp hcond.2 hcond.1.1.1
          rw [Option.map_none, Option.toList_none, List.nil_append, List.foldl_cons, hadd,
            foldl_add_of_taken (.inl (by simp))]
          rfl

end MethodMember.IsPlain

end Bindery
