import Bindery.Proofs.Json.Taken

/-!
# What reading consumes

A reader never leaves more characters than it was given (`Spends`).  So what is read from a
text is no larger than the text: no list in a value has more items than the text has
characters (`bounded_of_ofText`).

Tokens come first, then the moves inside containers, then the loops, and values last, by
induction on the budget.
-/

namespace Bindery.Json

open Number Text

/-- A reader that never leaves more characters than it was given. -/
def Spends {ε α : Type} (read : List Char → Except ε (α × List Char)) : Prop :=
  ∀ cs x rest, read cs = .ok (x, rest) → rest.length ≤ cs.length

theorem length_dropWhile_le (p : Char → Bool) (cs : List Char) :
    (cs.dropWhile p).length ≤ cs.length := (List.dropWhile_sublist p).length_le

/-- What stands behind white space takes a character more. -/
theorem length_skipSpace {cs rest : List Char} {c : Char} (h : skipSpace cs = c :: rest) :
    rest.length < cs.length := by
  have := length_dropWhile_le isSpace cs
  rw [show cs.dropWhile isSpace = c :: rest from h, List.length_cons] at this
  omega

/-! ## Tokens -/

theorem length_expectWord {word cs rest : List Char} (h : expectWord word cs = .ok rest) :
    rest.length ≤ cs.length := by
  rw [append_of_expectWord h, List.length_append]
  exact Nat.le_add_left _ _

theorem length_absorb (s : Nat) (cs : List Char) : (absorb s cs).2.2.length ≤ cs.length := by
  induction cs generalizing s with
  | nil => simp [absorb]
  | cons c cs ih =>
      rw [absorb]
      split
      · exact Nat.le_succ_of_le (ih _)
      · exact Nat.le_refl _

theorem length_absorbExponent (e : Nat) (cs : List Char) :
    (absorbExponent e cs).2.length ≤ cs.length := by
  induction cs generalizing e with
  | nil => simp [absorbExponent]
  | cons c cs ih =>
      rw [absorbExponent]
      split
      · simp only
        split
        · exact Nat.le_succ _
        · exact Nat.le_succ_of_le (ih _)
      · exact Nat.le_refl _

theorem spends_realNumber (negative : Bool) (s : Nat) (e : Int) :
    Spends (realNumber negative s e) := by
  intro cs x rest h
  rw [realNumber] at h
  split at h
  · cases h
    exact Nat.le_refl _
  · cases h

theorem spends_exponentPart (negative : Bool) (s : Nat) (scale : Int) (down : Bool) :
    Spends (exponentPart negative s scale down) := by
  intro cs x rest h
  have habsorb := length_absorbExponent 0 cs
  unfold exponentPart at h
  split at h
  · cases h
  · split at h
    · split at h
      · next heq =>
        rw [heq] at habsorb
        exact Nat.le_trans (spends_realNumber _ _ _ _ _ _ h) habsorb
      · next after heq =>
        rw [heq] at habsorb
        split at h
        · cases h
        · cases h
          exact Nat.le_trans (length_dropWhile_le _ _) habsorb
    · cases h

theorem spends_exponent (negative : Bool) (s : Nat) (scale : Int) :
    Spends (exponent negative s scale) := by
  intro cs x rest h
  unfold exponent at h
  split at h
  · exact Nat.le_succ_of_le (spends_exponentPart _ _ _ _ _ _ _ h)
  · exact Nat.le_succ_of_le (spends_exponentPart _ _ _ _ _ _ _ h)
  · exact spends_exponentPart _ _ _ _ _ _ _ h

theorem spends_exponentIfAny (negative : Bool) (s : Nat) (scale : Int) :
    Spends (exponentIfAny negative s scale) := by
  intro cs x rest h
  unfold exponentIfAny at h
  split at h
  · exact Nat.le_succ_of_le (spends_exponent _ _ _ _ _ _ h)
  · exact Nat.le_succ_of_le (spends_exponent _ _ _ _ _ _ h)
  · exact spends_realNumber _ _ _ _ _ _ h

theorem spends_fraction (negative : Bool) (s : Nat) (scale : Int) :
    Spends (fraction negative s scale) := by
  intro cs x rest h
  have habsorb := length_absorb s cs
  rw [fraction] at h
  generalize absorb s cs = a at h habsorb
  obtain ⟨s', n, after⟩ := a
  simp only at h habsorb
  split at h
  · split at h
    · cases h
    · exact Nat.le_trans (spends_exponentIfAny _ _ _ _ _ _ h) habsorb
  · split at h
    · exact Nat.le_trans (spends_exponentIfAny _ _ _ _ _ _ h)
        (Nat.le_trans (length_dropWhile_le _ _) habsorb)
    · split at h
      · cases h
      · exact Nat.le_trans (spends_exponentIfAny _ _ _ _ _ _ h) habsorb

theorem spends_wholeNumber (negative : Bool) (s : Nat) : Spends (wholeNumber negative s) := by
  intro cs x rest h
  rw [wholeNumber] at h
  split at h
  · split at h
    · exact spends_realNumber _ _ _ _ _ _ h
    · cases h
      exact Nat.le_refl _
  · cases h
    exact Nat.le_refl _

theorem spends_afterInteger (negative : Bool) (s scale : Nat) (long : Bool) :
    Spends (afterInteger negative s scale long) := by
  intro cs x rest h
  unfold afterInteger at h
  split at h
  · exact Nat.le_succ_of_le (spends_fraction _ _ _ _ _ _ h)
  · exact Nat.le_succ_of_le (spends_exponent _ _ _ _ _ _ h)
  · exact Nat.le_succ_of_le (spends_exponent _ _ _ _ _ _ h)
  · split at h
    · exact spends_realNumber _ _ _ _ _ _ h
    · exact spends_wholeNumber _ _ _ _ _ h

/-- A number is taken part by part, and no part gives anything back. -/
theorem spends_unsignedNumber (negative : Bool) : Spends (unsignedNumber negative) := by
  intro cs x rest h
  have habsorb := length_absorb 0 cs
  unfold unsignedNumber at h
  split at h
  · cases h
  · next c after =>
    split at h
    · -- a zero, with no digit behind it
      have hafter : rest.length ≤ after.length := by
        split at h
        · split at h
          · cases h
          · exact spends_afterInteger _ _ _ _ _ _ _ h
        · exact spends_afterInteger _ _ _ _ _ _ _ h
      exact Nat.le_succ_of_le hafter
    · split at h
      · generalize absorb 0 (c :: after) = a at h habsorb
        obtain ⟨s, n, behind⟩ := a
        simp only at h habsorb
        refine Nat.le_trans (spends_afterInteger _ _ _ _ _ _ _ h) ?_
        rw [List.length_drop]
        omega
      · cases h

theorem spends_stringRest : Spends stringRest := by
  intro cs x rest h
  obtain ⟨body, -, -, rfl⟩ := exists_of_stringRest h
  simp only [List.length_append, List.length_cons]
  omega

/-- A text takes at least its first quote. -/
theorem length_readText {α : Type} {expected : String} {use : String → Except Mismatch α}
    {cs rest : List Char} {x : α} (h : readText expected use cs = .ok (x, rest)) :
    rest.length < cs.length := by
  rw [readText] at h
  split at h
  · cases h
  · next hspace =>
    have hafter := length_skipSpace hspace
    split at h
    · split at h
      · cases h
      · next hstring =>
        have hrest := spends_stringRest _ _ _ hstring
        split at h
        · cases h
        · cases h
          omega
    · cases h

/-! ## Moves -/

/-- The moves inside containers take what was found to be there. -/
theorem spends_nextItem (first : Bool) : Spends (nextItem first) := by
  intro cs more rest h
  cases more with
  | false =>
      obtain ⟨g, -, rfl⟩ := exists_of_nextItem_false h
      rw [List.length_append]
      exact Nat.le_add_left _ _
  | true =>
      obtain ⟨lead, g, -, -, rfl⟩ := exists_of_nextItem_true h
      simp only [List.length_append]
      omega

theorem spends_nextKey (first : Bool) : Spends (nextKey first) := by
  intro cs key? rest h
  cases key? with
  | none =>
      obtain ⟨g, -, rfl⟩ := exists_of_nextKey_none h
      rw [List.length_append]
      exact Nat.le_add_left _ _
  | some key =>
      obtain ⟨lead, g, body, -, -, -, -, rfl⟩ := exists_of_nextKey_some h
      simp only [List.length_append, List.length_cons]
      omega

/-- A mark is the last thing that is taken. -/
theorem length_of_mark {cs rest g : List Char} {c : Char} (h : cs = g ++ c :: rest) :
    rest.length ≤ cs.length := by
  rw [h, List.length_append, List.length_cons]
  omega

theorem length_expectColon {cs rest : List Char} (h : expectColon cs = .ok rest) :
    rest.length ≤ cs.length := by
  obtain ⟨g, -, hcs⟩ := exists_of_expectColon h
  exact length_of_mark hcs

theorem length_closeList {cs rest : List Char} (h : closeList cs = .ok rest) :
    rest.length ≤ cs.length := by
  obtain ⟨g, -, hcs⟩ := exists_of_closeList h
  exact length_of_mark hcs

theorem length_closeObject {cs rest : List Char} (h : closeObject cs = .ok rest) :
    rest.length ≤ cs.length := by
  obtain ⟨g, -, hcs⟩ := exists_of_closeObject h
  exact length_of_mark hcs

/-! ## Loops -/

section Loops

variable {α σ : Type} {n : Nat}

/-- A reader that is given at most `n` characters leaves no more than it was given, and
what it reads has a property. -/
def Yields {ε : Type} (n : Nat) (P : α → Prop)
    (read : List Char → Except ε (α × List Char)) : Prop :=
  ∀ cs x rest, cs.length ≤ n → read cs = .ok (x, rest) → rest.length ≤ cs.length ∧ P x

/-- The items of a list have the property of items, and the bound is one of their
number. -/
theorem typedItems_yields {item : List Char → Typed α} {P : α → Prop}
    (hitem : Yields n P item) {bound : List Char} {first : Bool} {cs rest : List Char}
    {xs : List α} (hcs : cs.length ≤ n)
    (h : typedItems item bound first cs = .ok (xs, rest)) :
    rest.length ≤ cs.length ∧ xs.length < bound.length ∧ ∀ x ∈ xs, P x := by
  -- One character of the bound is spent for each item, so the number of items stays below its
  -- length.
  induction bound generalizing first cs xs with
  | nil => cases h
  | cons b bound ih =>
      rw [typedItems] at h
      split at h
      · cases h
      · next after hnext =>
        cases h
        exact ⟨spends_nextItem _ _ _ _ hnext, by simp, by simp⟩
      · next after hnext =>
        have hafter := spends_nextItem _ _ _ _ hnext
        split at h
        · cases h
        · next x behind hx =>
          obtain ⟨hbehind, hpx⟩ := hitem _ _ _ (by omega) hx
          split at h
          · cases h
          · next xs last hloop =>
            cases h
            obtain ⟨hlast, hlength, hxs⟩ := ih (by omega) hloop
            refine ⟨by omega, ?_, ?_⟩
            · simp only [List.length_cons]
              omega
            · rw [List.forall_mem_cons]
              exact ⟨hpx, hxs⟩

/-- A property of states that every member keeps is kept by the loop over members. -/
theorem typedMembers_yields {take : σ → String → List Char → Typed σ} {P : σ → Prop}
    (htake : ∀ s key, P s → Yields n P (take s key)) {bound : List Char} {first : Bool}
    {s last : σ} {cs rest : List Char} (hs : P s) (hcs : cs.length ≤ n)
    (h : typedMembers take bound first s cs = .ok (last, rest)) :
    rest.length ≤ cs.length ∧ P last := by
  induction bound generalizing first s cs with
  | nil => cases h
  | cons b bound ih =>
      rw [typedMembers] at h
      split at h
      · cases h
      · next after hnext =>
        cases h
        exact ⟨spends_nextKey _ _ _ _ hnext, hs⟩
      · next key after hnext =>
        have hafter := spends_nextKey _ _ _ _ hnext
        split at h
        · cases h
        · next s' behind hstep =>
          obtain ⟨hbehind, hs'⟩ := htake s key hs _ _ _ (by omega) hstep
          obtain ⟨hlast, hplast⟩ := ih hs' (by omega) h
          exact ⟨by omega, hplast⟩

/-- The value behind a key. -/
theorem memberValue_yields {read : List Char → Typed α} {P : α → Prop}
    (hread : Yields n P read) : Yields n P (memberValue read) := by
  intro cs x rest hcs h
  rw [memberValue] at h
  split at h
  · cases h
  · next after hcolon =>
    have hafter := length_expectColon hcolon
    obtain ⟨hrest, hx⟩ := hread _ _ _ (by omega) h
    exact ⟨by omega, hx⟩

/-- A list is no longer than the text. -/
theorem readList_yields {item : List Char → Typed α} {P : α → Prop}
    (hitem : Yields n P item) :
    Yields n (fun xs => xs.length ≤ n ∧ ∀ x ∈ xs, P x) (readList item) := by
  intro cs xs rest hcs h
  rw [readList] at h
  split at h
  · cases h
  · next c after hspace =>
    have hafter := length_skipSpace hspace
    split at h
    · split at h
      · cases h
      · next ys behind hloop =>
        -- the bound of the loop is the text behind the bracket, which is shorter than all of it
        obtain ⟨hbehind, hlength, hys⟩ := typedItems_yields hitem (by omega) hloop
        split at h
        · cases h
        · next hclose =>
          cases h
          have hrest := length_closeList hclose
          rw [List.length_cons] at hlength
          exact ⟨by omega, by omega, hys⟩
    · cases h

/-- An object that is read by its members. -/
theorem readObject_yields {take : σ → String → List Char → Typed σ} {P : σ → Prop}
    (htake : ∀ s key, P s → Yields n P (take s key)) {s : σ} (hs : P s)
    {finish : σ → Except Mismatch α} {Q : α → Prop}
    (hfinish : ∀ s x, P s → finish s = .ok x → Q x) (expected : String) :
    Yields n Q (readObject expected take s finish) := by
  intro cs x rest hcs h
  rw [readObject] at h
  -- What holds of the state holds behind every member, so it holds where the object is finished.
  split at h
  · cases h
  · next c after hspace =>
    have hafter := length_skipSpace hspace
    split at h
    · rw [objectRest] at h
      split at h
      · cases h
      · next last behind hloop =>
        obtain ⟨hbehind, hlast⟩ := typedMembers_yields htake hs (by omega) hloop
        split at h
        · cases h
        · next y hy =>
          split at h
          · cases h
          · next hclose =>
            cases h
            have hrest := length_closeObject hclose
            exact ⟨by omega, hfinish _ _ hlast hy⟩
    · cases h

end Loops

/-! ## Values -/

/-- No list in the value has more than `n` items. -/
inductive Bounded (n : Nat) : Json → Prop where
  | null : Bounded n .null
  | boolean (b : Bool) : Bounded n (.boolean b)
  | number (x : JsonNumber) : Bounded n (.number x)
  | string (s : String) : Bounded n (.string s)
  | array {items : List Json} (hlength : items.length ≤ n)
      (hitems : ∀ j ∈ items, Bounded n j) : Bounded n (.array items)
  | object {ms : List (String × Json)} (hms : ∀ m ∈ ms, Bounded n m.2) :
      Bounded n (.object ms)

/-- A member is collected beside others that are bounded. -/
theorem collect_yields {n : Nat} {item : List Char → Read Json}
    (hitem : Yields n (Bounded n) (asTyped item)) (done : List (String × Json)) (key : String)
    (hdone : ∀ m ∈ done, Bounded n m.2) :
    Yields n (fun ms => ∀ m ∈ ms, Bounded n m.2) (collect item done key) := by
  intro cs ms rest hcs h
  rw [collect] at h
  split at h
  · cases h
  · next x after hvalue =>
    cases h
    obtain ⟨hrest, hx⟩ := memberValue_yields hitem _ _ _ hcs hvalue
    refine ⟨hrest, ?_⟩
    intro m hm
    rcases List.mem_append.mp hm with hold | hnew
    · exact hdone m hold
    · rw [List.mem_singleton.mp hnew]
      exact hx

/-- The items of a list behind its opening bracket. -/
theorem items_yields {n : Nat} {item : List Char → Read Json} {c : Char}
    {cs rest : List Char} {xs : List Json} (hitem : Yields n (Bounded n) (asTyped item))
    (hcs : cs.length < n) (h : items item (c :: cs) true cs = .ok (xs, rest)) :
    rest.length ≤ cs.length ∧ Bounded n (.array xs) := by
  have htyped : typedItems (asTyped item) (c :: cs) true cs = .ok (xs, rest) :=
    typedItems_asTyped_eq_ok_iff.mpr h
  obtain ⟨hrest, hlength, hxs⟩ := typedItems_yields hitem (Nat.le_of_lt hcs) htyped
  rw [List.length_cons] at hlength
  exact ⟨hrest, .array (by omega) hxs⟩

/-- The members of an object behind its opening brace. -/
theorem members_yields {n : Nat} {item : List Char → Read Json} {c : Char}
    {cs rest : List Char} {ms : List (String × Json)}
    (hitem : Yields n (Bounded n) (asTyped item)) (hcs : cs.length ≤ n)
    (h : members item (c :: cs) true cs = .ok (ms, rest)) :
    rest.length ≤ cs.length ∧ Bounded n (.object ms) := by
  have htyped : typedMembers (collect item) (c :: cs) true [] cs = .ok (ms, rest) :=
    typedMembers_collect_eq_ok_iff.mpr h
  obtain ⟨hrest, hms⟩ := typedMembers_yields (P := fun ms => ∀ m ∈ ms, Bounded n m.2)
    (fun s key hs => collect_yields hitem s key hs) (by simp) hcs htyped
  exact ⟨hrest, .object hms⟩

/-- One value, if the values inside it are bounded. -/
theorem valueWith_yields {n : Nat} {inner : Option (List Char → Read Json)}
    (hinner : ∀ item, inner = some item → Yields n (Bounded n) (asTyped item)) :
    Yields n (Bounded n) (valueWith inner) := by
  intro cs x rest hcs h
  rw [valueWith] at h
  split at h
  · cases h
  · next c after hspace =>
    have hafter := length_skipSpace hspace
    -- the three words
    split at h
    · split at h
      · cases h
      · next hword =>
        cases h
        have := length_expectWord hword
        exact ⟨by omega, .null⟩
    split at h
    · split at h
      · cases h
      · next hword =>
        cases h
        have := length_expectWord hword
        exact ⟨by omega, .boolean true⟩
    split at h
    · split at h
      · cases h
      · next hword =>
        cases h
        have := length_expectWord hword
        exact ⟨by omega, .boolean false⟩
    -- a number, below zero or not
    split at h
    · split at h
      · cases h
      · next hnumber =>
        cases h
        have := spends_unsignedNumber _ _ _ _ hnumber
        exact ⟨by omega, .number _⟩
    split at h
    · split at h
      · cases h
      · next hnumber =>
        cases h
        have := spends_unsignedNumber _ _ _ _ hnumber
        rw [List.length_cons] at this
        exact ⟨by omega, .number _⟩
    -- a string
    split at h
    · split at h
      · cases h
      · next hstring =>
        cases h
        have := spends_stringRest _ _ _ hstring
        exact ⟨by omega, .string _⟩
    -- a list
    split at h
    · split at h
      · cases h
      · next item =>
        split at h
        · cases h
        · next xs behind hloop =>
          split at h
          · cases h
          · next hclose =>
            cases h
            obtain ⟨hbehind, hxs⟩ := items_yields (hinner item rfl) (by omega) hloop
            have hrest := length_closeList hclose
            exact ⟨by omega, hxs⟩
    -- an object
    split at h
    · split at h
      · cases h
      · next item =>
        split at h
        · cases h
        · next ms behind hloop =>
          split at h
          · cases h
          · next hclose =>
            cases h
            obtain ⟨hbehind, hms⟩ := members_yields (hinner item rfl) (by omega) hloop
            have hrest := length_closeObject hclose
            exact ⟨by omega, hms⟩
    · cases h

/-- Values are bounded by what the reader is given. -/
theorem value_yields (n budget : Nat) : Yields n (Bounded n) (asTyped (value budget)) := by
  induction budget with
  | zero =>
      intro cs x rest hcs h
      have hnone : ∀ item, (none : Option (List Char → Read Json)) = some item →
          Yields n (Bounded n) (asTyped item) := by
        intro item hitem
        cases hitem
      exact valueWith_yields hnone cs x rest hcs (asTyped_eq_ok_iff.mp h)
  | succ budget ih =>
      intro cs x rest hcs h
      refine valueWith_yields ?_ cs x rest hcs (asTyped_eq_ok_iff.mp h)
      intro item hitem
      rw [← Option.some.inj hitem]
      exact ih

/-- Settled items are as many. -/
theorem length_settleItems (items : List Json) : (settleItems items).length = items.length := by
  induction items with
  | nil => rfl
  | cons item rest ih => simp [settleItems, ih]

mutual

/-- Settling does not lengthen lists. -/
theorem bounded_settle {n : Nat} : ∀ j : Json, Bounded n j → Bounded n j.settle
  | .array items, h => by
      cases h with
      | array hlength hitems =>
          rw [settle]
          exact .array (length_settleItems items ▸ hlength) (bounded_settleItems items hitems)
  | .object ms, h => by
      cases h with
      | object hms =>
          rw [settle]
          exact .object (bounded_settleMembers ms [] hms (by simp))
  | .null, _ => .null
  | .boolean b, _ => .boolean b
  | .number x, _ => .number x
  | .string s, _ => .string s

/-- Settled items are bounded. -/
theorem bounded_settleItems {n : Nat} : ∀ items : List Json, (∀ j ∈ items, Bounded n j) →
    ∀ j ∈ settleItems items, Bounded n j
  | [], _ => by simp [settleItems]
  | item :: rest, h => by
      rw [List.forall_mem_cons] at h
      rw [settleItems, List.forall_mem_cons]
      exact ⟨bounded_settle item h.1, bounded_settleItems rest h.2⟩

/-- Settled members are bounded. -/
theorem bounded_settleMembers {n : Nat} : ∀ ms done : List (String × Json),
    (∀ m ∈ ms, Bounded n m.2) → (∀ m ∈ done, Bounded n m.2) →
    ∀ m ∈ settleMembers done ms, Bounded n m.2
  | [], done, _, hdone => by
      rw [settleMembers]
      exact hdone
  | (key, value) :: rest, done, h, hdone => by
      rw [List.forall_mem_cons] at h
      have hvalue := bounded_settle value h.1
      rw [settleMembers]
      exact bounded_settleMembers rest _ h.2
        (forall_upsertPair hdone hvalue fun _ _ => hvalue)

end

/-- **NO MORE THAN THE TEXT**: no list in a value that is read from a text has more items
than the text has characters. -/
theorem bounded_of_ofText {text : String} {j : Json} (h : ofText text = .ok j) :
    Bounded text.length j := by
  rw [ofText] at h
  split at h
  · cases h
  · next tree htree =>
    rw [← Except.ok.inj h]
    apply bounded_settle
    rw [readTree] at htree
    split at htree
    · cases htree
    · next hvalue =>
      split at htree
      · cases htree
      · cases htree
        exact (value_yields text.length depthLimit _ _ _ (Nat.le_of_eq String.length_toList)
          (asTyped_eq_ok_iff.mpr hvalue)).2

end Bindery.Json
