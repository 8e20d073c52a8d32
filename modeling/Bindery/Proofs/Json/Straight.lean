import Bindery.Proofs.Json.Consumption

/-!
# Reading straight

A typed reader takes data from a text and builds no tree.  It does what reading the tree and
decoding it does, as far as it succeeds (`ReadsTree`): the characters that it leaves are those
that the reader of trees leaves, and what it comes to is what the tree is decoded as.  The tree
is taken as it was read, its repeated keys included.

Texts, lists and objects each keep this of what is inside them.  An object moves a state along,
so its lemma asks for a relation between states that has a step for each member
(`readsTree_readObject`).
-/

namespace Bindery.Json

open Text

/-- The reader does what reading a tree with a budget and decoding it does. -/
def ReadsTree {α : Type} (budget : Nat) (read : List Char → Typed α) (decode : Decoder α) : Prop :=
  ∀ cs x rest, read cs = .ok (x, rest) → ∃ j, value budget cs = .ok (j, rest) ∧ decode j = .ok x

section Scalars

variable {cs rest : List Char}

/-- A value is read from behind the white space in front of it. -/
theorem valueWith_congr_skipSpace {cs' : List Char} (h : skipSpace cs = skipSpace cs')
    (inner : Option (List Char → Read Json)) : valueWith inner cs = valueWith inner cs' := by
  unfold valueWith
  rw [h]

/-- White space in front does not matter to a value. -/
theorem value_skipSpace {c : Char} (budget : Nat) (h : skipSpace cs = c :: rest) :
    value budget (c :: rest) = value budget cs := by
  have hsame : skipSpace (c :: rest) = skipSpace cs := by
    have hc : isSpace c = false := by
      have := List.head?_dropWhile_not isSpace cs
      rw [show cs.dropWhile isSpace = c :: rest from h] at this
      simpa using this
    rw [h, skipSpace, List.dropWhile_cons_of_neg (by simp [hc])]
  cases budget with
  | zero => exact valueWith_congr_skipSpace hsame none
  | succ budget => exact valueWith_congr_skipSpace hsame (some (value budget))

/-- A text is read as a value with any budget. -/
theorem value_string {t : String} {after : List Char} (budget : Nat)
    (hspace : skipSpace cs = '"' :: rest) (htext : stringRest rest = .ok (t, after)) :
    value budget cs = .ok (.string t, after) := by
  have hvalue : ∀ inner, valueWith inner cs = .ok (.string t, after) := by
    intro inner
    rw [valueWith]
    rw [hspace]
    simp [htext, show isAsciiDigit '"' = false from rfl]
  cases budget with
  | zero => exact hvalue none
  | succ budget => exact hvalue (some (value budget))

/-- A text is read straight as it is decoded. -/
theorem readsTree_readText {α : Type} {expected : String} {use : String → Except Mismatch α}
    {decode : Decoder α} (h : ∀ s, decode (.string s) = use s) (budget : Nat) :
    ReadsTree budget (readText expected use) decode := by
  intro cs x rest hread
  rw [readText] at hread
  split at hread
  · cases hread
  · next c after hspace =>
    split at hread
    · next hc =>
      subst hc
      split at hread
      · cases hread
      · next t behind htext =>
        split at hread
        · cases hread
        · next huse =>
          cases hread
          exact ⟨.string t, value_string budget hspace htext, (h t).trans huse⟩
    · cases hread

theorem readsTree_readString (budget : Nat) : ReadsTree budget readString asString := by
  have h : ∀ s, asString (.string s) = .ok s := fun _ => rfl
  exact readsTree_readText h budget

end Scalars

/-! ## Lists -/

section Lists

variable {α : Type} {budget : Nat} {item : List Char → Typed α} {decode : Decoder α}

/-- Items are read straight as they are decoded from what the reader of values reads. -/
theorem typedItems_readsTree (hitem : ReadsTree budget item decode) {bound : List Char}
    {first : Bool} {cs rest : List Char} {xs : List α}
    (h : typedItems item bound first cs = .ok (xs, rest)) :
    ∃ js, items (value budget) bound first cs = .ok (js, rest)
      ∧ decodeItems decode js = .ok xs := by
  -- Both loops ask for the next item in the same places, so each item of one is an item of the
  -- other.
  induction bound generalizing first cs xs with
  | nil => cases h
  | cons b bound ih =>
      rw [typedItems] at h
      split at h
      · cases h
      · next after hnext =>
        cases h
        exact ⟨[], by rw [items, hnext], rfl⟩
      · next after hnext =>
        split at h
        · cases h
        · next x behind hx =>
          obtain ⟨j, hj, hdecode⟩ := hitem _ _ _ hx
          split at h
          · cases h
          · next hrest =>
            cases h
            obtain ⟨js, hjs, hdecodes⟩ := ih hrest
            refine ⟨j :: js, ?_, ?_⟩
            · rw [items, hnext]
              simp only [hj, hjs]
            · rw [decodeItems, hdecode, hdecodes]

/-- **LISTS**: a reader of lists reads a tree if the reader of items does. -/
theorem readsTree_readList (hitem : ReadsTree budget item decode) :
    ReadsTree (budget + 1) (readList item) (asList decode) := by
  intro cs xs rest h
  rw [readList] at h
  split at h
  · cases h
  · next c after hspace =>
    split at h
    · next hc =>
      subst hc
      split at h
      · cases h
      · next hloop =>
        split at h
        · cases h
        · next hclose =>
          cases h
          obtain ⟨js, hjs, hdecodes⟩ := typedItems_readsTree hitem hloop
          exact ⟨.array js, valueWith_list hspace hjs hclose, hdecodes⟩
    · cases h

/-- A loop that ends ends the same with a longer bound. -/
theorem items_of_le {inner : List Char → Read Json} {bound bound' : List Char} {first : Bool}
    {cs rest : List Char} {js : List Json} (h : items inner bound first cs = .ok (js, rest))
    (hle : bound.length ≤ bound'.length) : items inner bound' first cs = .ok (js, rest) := by
  induction bound generalizing bound' first cs js with
  | nil => cases h
  | cons b bound ih =>
      obtain ⟨b', bound', rfl⟩ :=
        List.exists_cons_of_length_pos (Nat.lt_of_lt_of_le (Nat.succ_pos _) hle)
      rw [items] at h ⊢
      split at h
      · cases h
      · exact h
      · split at h
        · cases h
        · split at h
          · cases h
          · next hrest =>
            cases h
            rw [ih hrest (Nat.le_of_succ_le_succ hle)]

end Lists

/-! ## Objects -/

section Objects

variable {α σ : Type} {budget : Nat}

/-- The value behind a key is that of a tree. -/
theorem memberValue_readsTree {read : List Char → Typed α} {decode : Decoder α}
    (hread : ReadsTree budget read decode) {cs rest : List Char} {x : α}
    (h : memberValue read cs = .ok (x, rest)) :
    ∃ j, memberValue (asTyped (value budget)) cs = .ok (j, rest) ∧ decode j = .ok x := by
  rw [memberValue] at h
  split at h
  · cases h
  · next hcolon =>
    obtain ⟨j, hj, hdecode⟩ := hread _ _ _ h
    refine ⟨j, ?_, hdecode⟩
    rw [memberValue]
    simp only [hcolon]
    exact asTyped_eq_ok_iff.mpr hj

variable {take : σ → String → List Char → Typed σ} {Q : σ → List (String × Json) → σ → Prop}

/-- Members are taken into a state as the members that were read are, one after the other. -/
theorem typedMembers_readsTree (hnil : ∀ s, Q s [] s)
    (hcons : ∀ s key cs next rest, take s key cs = .ok (next, rest) →
      ∃ j, memberValue (asTyped (value budget)) cs = .ok (j, rest)
        ∧ ∀ ms last, Q next ms last → Q s ((key, j) :: ms) last)
    {bound : List Char} {first : Bool} {s last : σ} {cs rest : List Char}
    (h : typedMembers take bound first s cs = .ok (last, rest)) :
    ∃ ms, members (value budget) bound first cs = .ok (ms, rest) ∧ Q s ms last := by
  induction bound generalizing first s cs with
  | nil => cases h
  | cons b bound ih =>
      rw [typedMembers] at h
      split at h
      · cases h
      · next hnext =>
        cases h
        exact ⟨[], by rw [members, hnext], hnil _⟩
      · next key after hnext =>
        split at h
        · cases h
        · next next behind htake =>
          -- the step of this member stands in front of what the rest comes to
          obtain ⟨j, hj, hstep⟩ := hcons _ _ _ _ _ htake
          obtain ⟨ms, hms, hlast⟩ := ih h
          refine ⟨(key, j) :: ms, ?_, hstep ms last hlast⟩
          rw [memberValue] at hj
          split at hj
          · cases hj
          · next hcolon =>
            rw [members, hnext]
            simp only [hcolon, asTyped_eq_ok_iff.mp hj, hms]

/-- **OBJECTS**: a reader of objects goes through the members of a tree. -/
theorem readsTree_readObject (hnil : ∀ s, Q s [] s)
    (hcons : ∀ s key cs next rest, take s key cs = .ok (next, rest) →
      ∃ j, memberValue (asTyped (value budget)) cs = .ok (j, rest)
        ∧ ∀ ms last, Q next ms last → Q s ((key, j) :: ms) last)
    {expected : String} {s : σ} {finish : σ → Except Mismatch α} {cs rest : List Char} {x : α}
    (h : readObject expected take s finish cs = .ok (x, rest)) :
    ∃ ms last, value (budget + 1) cs = .ok (.object ms, rest) ∧ Q s ms last
      ∧ finish last = .ok x := by
  rw [readObject] at h
  split at h
  · cases h
  · next c after hspace =>
    split at h
    · next hc =>
      subst hc
      rw [objectRest] at h
      split at h
      · cases h
      · next last behind hloop =>
        split at h
        · cases h
        · next hfinish =>
          split at h
          · cases h
          · next hclose =>
            cases h
            obtain ⟨ms, hms, hlast⟩ := typedMembers_readsTree hnil hcons hloop
            exact ⟨ms, last, valueWith_object hspace hms hclose, hlast, hfinish⟩
    · cases h

end Objects

end Bindery.Json
