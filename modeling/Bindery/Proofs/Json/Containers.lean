import Bindery.Json.Stream
import Bindery.Proofs.Json.Tokens

/-!
# Reading written containers

A typed reader takes a written container back if it takes back what is inside.  For lists
that is a property of the reader of items (`ReadsBack`); for objects the members move a
state along, and `Takes` says through which states a written object leads.

The loops over what is inside come first (`typedItems_writeItems`,
`typedMembers_writeMembers`), then whole containers (`readsBack_list`,
`readsBack_object`).
-/

namespace Bindery.Json

open Text

/-! ## White space -/

/-- Only white space. -/
def Blank (space : List Char) : Prop := ∀ c ∈ space, isSpace c = true

theorem blank_nil : Blank [] := by
  intro c hc
  cases hc

theorem blank_space : Blank [' '] := by
  intro c hc
  rw [List.mem_singleton.mp hc]
  rfl

theorem blank_newLine (level : Nat) : Blank (newLine level) := by
  intro c hc
  rcases List.mem_cons.mp hc with rfl | hmem
  · rfl
  · rw [List.eq_of_mem_replicate hmem]
    rfl

/-- White space is skipped up to the first other character. -/
theorem skipSpace_blank {space : List Char} (hspace : Blank space) {c : Char}
    (hc : isSpace c = false) (rest : List Char) :
    skipSpace (space ++ c :: rest) = c :: rest := by
  rw [skipSpace, List.dropWhile_append_of_pos hspace,
    List.dropWhile_cons_of_neg (by simp [hc])]

/-- White space does not continue a number. -/
theorem detached_of_isSpace {c : Char} (h : isSpace c = true) (rest : List Char) :
    Detached (c :: rest) := by
  simp only [isSpace, Bool.or_eq_true, beq_iff_eq] at h
  rw [detached_cons]
  rcases h with ((rfl | rfl) | rfl) | rfl <;> decide

/-- What comes behind white space does not continue a number if it would not without. -/
theorem detached_blank {space rest : List Char} (hspace : Blank space) (hrest : Detached rest) :
    Detached (space ++ rest) := by
  cases space with
  | nil => exact hrest
  | cons c cs => exact detached_of_isSpace (hspace c List.mem_cons_self) _

/-! ## Reading back -/

/-- The reader takes a text back as a value: it skips white space in front of the text and
stops at its end, unless what follows continues a number. -/
def ReadsBack {α : Type} (read : List Char → Typed α) (text : List Char) (x : α) : Prop :=
  ∀ space rest, Blank space → Detached rest → read (space ++ (text ++ rest)) = .ok (x, rest)

/-- The text starts with a character that neither is skipped nor ends a list. -/
def Opens (text : List Char) : Prop :=
  ∃ c cs, text = c :: cs ∧ isSpace c = false ∧ c ≠ ']'

section Lists

variable {α : Type} {item : List Char → Typed α} {toJson : α → Json} {level : Nat}

/-- The end of a list is seen. -/
theorem nextItem_close {close : List Char} (hclose : Blank close) (first : Bool)
    (rest : List Char) :
    nextItem first (close ++ ']' :: rest) = .ok (false, ']' :: rest) := by
  rw [nextItem]
  rw [skipSpace_blank hclose rfl]
  rfl

/-- The first item is seen. -/
theorem nextItem_first {text : List Char} (htext : Opens text) {space : List Char}
    (hspace : Blank space) (rest : List Char) :
    nextItem true (space ++ (text ++ rest)) = .ok (true, text ++ rest) := by
  obtain ⟨c, cs, rfl, hc, hbracket⟩ := htext
  rw [nextItem]
  rw [List.cons_append, skipSpace_blank hspace hc]
  simp only [if_neg hbracket, if_true]

/-- A further item is seen. -/
theorem nextItem_further {text : List Char} (htext : Opens text) {space : List Char}
    (hspace : Blank space) (rest : List Char) :
    nextItem false (',' :: (space ++ (text ++ rest))) = .ok (true, text ++ rest) := by
  obtain ⟨c, cs, rfl, hc, hbracket⟩ := htext
  have hcomma :
      skipSpace (',' :: (space ++ (c :: cs ++ rest))) = ',' :: (space ++ c :: (cs ++ rest)) :=
    skipSpace_blank blank_nil rfl _
  rw [nextItem]
  rw [hcomma]
  simp only [show (',' : Char) ≠ ']' from by decide, if_false, Bool.false_eq_true, if_true,
    skipSpace_blank hspace hc, if_neg hbracket]
  rfl

/-- What follows an item does not continue a number. -/
theorem detached_writeItems (level : Nat) {close : List Char} (hclose : Blank close)
    (js : List Json) (rest : List Char) :
    Detached (writeItems level js ++ (close ++ ']' :: rest)) := by
  cases js with
  | nil =>
      rw [writeItems, List.nil_append]
      exact detached_blank hclose (detached_cons.mpr (by decide))
  | cons j js =>
      rw [writeItems, List.cons_append]
      exact detached_cons.mpr (by decide)

/-- The loop over the items behind the first one. -/
theorem typedItems_writeItems {xs : List α}
    (hitem : ∀ x ∈ xs, ReadsBack item (write level (toJson x)) x)
    (hopens : ∀ x ∈ xs, Opens (write level (toJson x)))
    {close : List Char} (hclose : Blank close) (rest : List Char)
    {bound : List Char} (hbound : xs.length < bound.length) :
    typedItems item bound false
        (writeItems level (xs.map toJson) ++ (close ++ ']' :: rest))
      = .ok (xs, ']' :: rest) := by
  induction xs generalizing bound with
  | nil =>
      obtain ⟨b, bound, rfl⟩ := List.exists_cons_of_length_pos hbound
      rw [List.map_nil, writeItems, List.nil_append, typedItems, nextItem_close hclose]
  | cons x xs ih =>
      obtain ⟨b, bound, rfl⟩ := List.exists_cons_of_length_pos (Nat.zero_lt_of_lt hbound)
      rw [List.forall_mem_cons] at hitem hopens
      have hnext := nextItem_further hopens.1 (blank_newLine level)
        (writeItems level (xs.map toJson) ++ (close ++ ']' :: rest))
      have hread := hitem.1 [] _ blank_nil
        (detached_writeItems level hclose (xs.map toJson) rest)
      have hrest := ih hitem.2 hopens.2 (Nat.lt_of_succ_lt_succ hbound)
      -- one step of the bound is spent on the comma and the item behind it
      rw [List.map_cons, writeItems, typedItems]
      simp only [List.cons_append, List.append_assoc, List.nil_append] at hnext hread ⊢
      simp only [hnext, hread, hrest]

/-- There are at least as many characters as items. -/
theorem length_le_writeItems (level : Nat) (js : List Json) :
    js.length ≤ (writeItems level js).length := by
  induction js with
  | nil => simp
  | cons j js ih =>
      rw [writeItems]
      simp only [List.length_cons, List.length_append]
      omega

/-- The end of a list is left behind. -/
theorem closeList_bracket (rest : List Char) : closeList (']' :: rest) = .ok rest := rfl

/-- **LISTS**: a written list is read back item by item. -/
theorem readsBack_list (toJson : α → Json) {xs : List α}
    (hitem : ∀ x ∈ xs, ReadsBack item (write (level + 1) (toJson x)) x)
    (hopens : ∀ x ∈ xs, Opens (write (level + 1) (toJson x))) :
    ReadsBack (readList item) (write level (.array (xs.map toJson))) xs := by
  intro space rest hspace _
  cases xs with
  | nil =>
      rw [List.map_nil, write]
      rw [readList]
      rw [List.cons_append, skipSpace_blank hspace rfl]
      rfl
  | cons x xs =>
      rw [List.forall_mem_cons] at hitem hopens
      have hclose := blank_newLine level
      have hnext := nextItem_first hopens.1 (blank_newLine (level + 1))
        (writeItems (level + 1) (xs.map toJson) ++ (newLine level ++ ']' :: rest))
      have hread := hitem.1 [] _ blank_nil
        (detached_writeItems (level + 1) hclose (xs.map toJson) rest)
      -- the first item stands without a comma; the loop has to go on with the others, and the
      -- text is long enough to bound it
      have hlength := length_le_writeItems (level + 1) (xs.map toJson)
      have hrest := fun (bound : List Char) (hbound : xs.length < bound.length) =>
        typedItems_writeItems hitem.2 hopens.2 hclose rest hbound
      rw [List.map_cons, write]
      simp only [List.cons_append, List.append_assoc, List.nil_append] at hnext hread ⊢
      rw [readList]
      rw [skipSpace_blank hspace rfl]
      simp only [if_true, typedItems, hnext, hread]
      rw [hrest]
      · simp only [closeList_bracket]
      · simp only [List.length_append, List.length_cons, List.length_map] at hlength ⊢
        omega

end Lists

section Objects

variable {σ α : Type} {take : σ → String → List Char → Typed σ} {level : Nat}

/-- A written object leads from one state to another: each member in turn is taken in, up
to the end of its value. -/
inductive Takes (take : σ → String → List Char → Typed σ) (level : Nat) :
    σ → List (String × Json) → σ → Prop where
  | nil (state : σ) : Takes take level state [] state
  | cons {state next last : σ} {key : String} {j : Json} {ms : List (String × Json)}
      (hstep : ∀ rest, Detached rest →
        take state key (':' :: ' ' :: (write level j ++ rest)) = .ok (next, rest))
      (hrest : Takes take level next ms last) : Takes take level state ((key, j) :: ms) last

/-- Objects one behind the other. -/
theorem Takes.append {state next last : σ} {ms ms' : List (String × Json)}
    (h : Takes take level state ms next) (h' : Takes take level next ms' last) :
    Takes take level state (ms ++ ms') last := by
  induction h with
  | nil state => exact h'
  | cons hstep _ ih => exact Takes.cons hstep (ih h')

/-- Members that come from a list move the state along the list. -/
theorem Takes.of_foldl {β : Type} {member : β → String × Json} {step : σ → β → σ}
    {xs : List β} (h : ∀ x ∈ xs, ∀ state rest, Detached rest →
      take state (member x).1 (':' :: ' ' :: (write level (member x).2 ++ rest))
        = .ok (step state x, rest)) (state : σ) :
    Takes take level state (xs.map member) (xs.foldl step state) := by
  induction xs generalizing state with
  | nil => exact Takes.nil state
  | cons x xs ih =>
      rw [List.forall_mem_cons] at h
      exact Takes.cons (h.1 state) (ih h.2 _)

/-- The value behind a key is read back. -/
theorem memberValue_readsBack {read : List Char → Typed α} {text : List Char} {x : α}
    (h : ReadsBack read text x) {rest : List Char} (hrest : Detached rest) :
    memberValue read (':' :: ' ' :: (text ++ rest)) = .ok (x, rest) := by
  show read ([' '] ++ (text ++ rest)) = _
  exact h [' '] rest blank_space hrest

/-- A written key is read back. -/
theorem key_writeString (key : String) (rest : List Char) :
    nextKey.key (key.toList.flatMap writeChar ++ '"' :: rest) = .ok (some key, rest) := by
  rw [nextKey.key, stringRest_writeString]

/-- The end of an object is seen. -/
theorem nextKey_close {close : List Char} (hclose : Blank close) (first : Bool)
    (rest : List Char) :
    nextKey first (close ++ '\x7d' :: rest) = .ok (none, '\x7d' :: rest) := by
  rw [nextKey]
  rw [skipSpace_blank hclose rfl]
  rfl

/-- The first key is seen. -/
theorem nextKey_first {space : List Char} (hspace : Blank space) (key : String)
    (rest : List Char) :
    nextKey true (space ++ (writeString key ++ rest)) = .ok (some key, rest) := by
  rw [← key_writeString key rest]
  rw [nextKey]
  rw [writeString, List.cons_append, skipSpace_blank hspace rfl]
  simp

/-- A further key is seen. -/
theorem nextKey_further {space : List Char} (hspace : Blank space) (key : String)
    (rest : List Char) :
    nextKey false (',' :: (space ++ (writeString key ++ rest))) = .ok (some key, rest) := by
  have hcomma : skipSpace (',' :: (space ++ (writeString key ++ rest)))
      = ',' :: (space ++ (writeString key ++ rest)) := skipSpace_blank blank_nil rfl _
  rw [← key_writeString key rest]
  rw [nextKey]
  rw [hcomma]
  rw [writeString, List.cons_append]
  simp only [skipSpace_blank hspace (show isSpace '"' = false from rfl)]
  simp

/-- What follows a member does not continue a number. -/
theorem detached_writeMembers (level : Nat) {close : List Char} (hclose : Blank close)
    (ms : List (String × Json)) (rest : List Char) :
    Detached (writeMembers level ms ++ (close ++ '\x7d' :: rest)) := by
  cases ms with
  | nil =>
      rw [writeMembers, List.nil_append]
      exact detached_blank hclose (detached_cons.mpr (by decide))
  | cons m ms =>
      rw [writeMembers, List.cons_append]
      exact detached_cons.mpr (by decide)

/-- The loop over the members behind the first one. -/
theorem typedMembers_writeMembers {state last : σ} {ms : List (String × Json)}
    (h : Takes take level state ms last) {close : List Char} (hclose : Blank close)
    (rest : List Char) {bound : List Char} (hbound : ms.length < bound.length) :
    typedMembers take bound false state
        (writeMembers level ms ++ (close ++ '\x7d' :: rest))
      = .ok (last, '\x7d' :: rest) := by
  induction h generalizing bound with
  | nil state =>
      obtain ⟨b, bound, rfl⟩ := List.exists_cons_of_length_pos hbound
      rw [writeMembers, List.nil_append, typedMembers, nextKey_close hclose]
  | @cons state next last key j ms hstep _ ih =>
      obtain ⟨b, bound, rfl⟩ := List.exists_cons_of_length_pos (Nat.zero_lt_of_lt hbound)
      have hnext := nextKey_further (blank_newLine level) key
        (':' :: ' ' :: (write level j ++ (writeMembers level ms ++ (close ++ '\x7d' :: rest))))
      have htake := hstep _ (detached_writeMembers level hclose ms rest)
      have hrest := ih (Nat.lt_of_succ_lt_succ hbound)
      -- one step of the bound is spent on the comma and the member behind it
      rw [writeMembers, typedMembers]
      simp only [List.cons_append, List.append_assoc, List.nil_append] at hnext htake ⊢
      simp only [hnext, htake, hrest]

/-- There are at least as many characters as members. -/
theorem length_le_writeMembers (level : Nat) (ms : List (String × Json)) :
    ms.length ≤ (writeMembers level ms).length := by
  induction ms with
  | nil => simp
  | cons m ms ih =>
      rw [writeMembers]
      simp only [List.length_cons, List.length_append]
      omega

/-- The end of an object is left behind. -/
theorem closeObject_brace (rest : List Char) : closeObject ('\x7d' :: rest) = .ok rest := rfl

/-- An object is read once its members have been taken in. -/
theorem objectRest_of_members {state last : σ} {finish : σ → Except Mismatch α} {x : α}
    {cs rest : List Char}
    (hmembers : typedMembers take ('\x7b' :: cs) true state cs = .ok (last, '\x7d' :: rest))
    (hfinish : finish last = .ok x) :
    objectRest take state finish cs = .ok (x, rest) := by
  rw [objectRest]
  rw [hmembers]
  simp only [hfinish, closeObject_brace]

/-- **OBJECTS**: a written object is read back along the states that its members lead
through. -/
theorem readsBack_object (expected : String) {state last : σ}
    (finish : σ → Except Mismatch α) {x : α} {ms : List (String × Json)}
    (h : Takes take (level + 1) state ms last) (hfinish : finish last = .ok x) :
    ReadsBack (readObject expected take state finish) (write level (.object ms)) x := by
  intro space rest hspace _
  -- An empty object is written without a line break, so it is a case of its own.
  cases h with
  | nil =>
      have hmembers : typedMembers take ('\x7b' :: '\x7d' :: rest) true state ('\x7d' :: rest)
          = .ok (state, '\x7d' :: rest) := by
        rw [typedMembers, show nextKey true ('\x7d' :: rest) = .ok (none, '\x7d' :: rest) from
          nextKey_close blank_nil true rest]
      rw [write, List.cons_append]
      rw [readObject]
      rw [skipSpace_blank hspace rfl]
      exact objectRest_of_members hmembers hfinish
  | @cons _ next _ key j ms hstep htakes =>
      have hclose := blank_newLine level
      have hnext := nextKey_first (blank_newLine (level + 1)) key
        (':' :: ' ' :: (write (level + 1) j
          ++ (writeMembers (level + 1) ms ++ (newLine level ++ '\x7d' :: rest))))
      have htake := hstep _ (detached_writeMembers (level + 1) hclose ms rest)
      have hlength := length_le_writeMembers (level + 1) ms
      have hrest := fun (bound : List Char) (hbound : ms.length < bound.length) =>
        typedMembers_writeMembers htakes hclose rest hbound
      rw [write]
      simp only [List.cons_append, List.append_assoc, List.nil_append] at hnext htake ⊢
      rw [readObject]
      rw [skipSpace_blank hspace rfl]
      refine objectRest_of_members ?_ hfinish
      simp only [typedMembers, hnext, htake]
      rw [hrest]
      simp only [List.length_append, List.length_cons] at hlength ⊢
      omega

end Objects

end Bindery.Json
