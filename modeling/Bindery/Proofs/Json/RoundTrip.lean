import Bindery.Proofs.Json.Containers
import Bindery.Proofs.Json.Settle

/-!
# Reading a printed value

A printed value is read back as it was: `readsBack_value` for values inside a text and
`ofText_pretty` for whole texts, where repeated keys are settled as well.  This holds of
the values that a reader with a given budget can hold (`Readable`): no deeper than the
budget, and their numbers integers of 64 bits.  Doubles are left out; documents have none.

The induction is on the budget, on which the reader of values recurses itself.
-/

namespace Bindery.Json

open Number Text

/-- The values that the reader can take back with a budget. -/
def Readable : Nat → Json → Prop
  | _, .null => True
  | _, .boolean _ => True
  | _, .number (.integer i) => -(2 ^ 63) ≤ i ∧ i < 2 ^ 64
  | _, .number (.real _) => False
  | _, .string _ => True
  | 0, .array _ => False
  | 0, .object _ => False
  | budget + 1, .array items => ∀ item ∈ items, Readable budget item
  | budget + 1, .object ms => ∀ m ∈ ms, Readable budget m.2

/-! ## Scalars -/

theorem writeNumber_natural (n : Nat) :
    writeNumber (.integer (Int.ofNat n)) = Nat.toDigits 10 n := by
  show (toString n).toList = _
  rw [Nat.toString_eq_repr, Nat.toList_repr]

theorem writeNumber_negative (n : Nat) :
    writeNumber (.integer (Int.negSucc n)) = '-' :: Nat.toDigits 10 (n + 1) := by
  show ("-" ++ (n + 1).repr).toList = _
  rw [String.toList_append, Nat.toList_repr]
  rfl

/-- The first digit of a number. -/
theorem toDigits_eq_cons (n : Nat) :
    ∃ c cs, Nat.toDigits 10 n = c :: cs ∧ isAsciiDigit c = true := by
  obtain ⟨c, cs, h⟩ := List.exists_cons_of_ne_nil (Nat.toDigits_ne_nil (n := n) (b := 10))
  exact ⟨c, cs, h, isAsciiDigit_of_mem_toDigits (h ▸ List.mem_cons_self)⟩

/-- A digit is none of the characters at which values of other kinds start. -/
theorem ne_of_isAsciiDigit {c : Char} (h : isAsciiDigit c = true) {d : Char}
    (hd : isAsciiDigit d = false) : c ≠ d := by
  rintro rfl
  rw [h] at hd
  cases hd

/-- A digit is not skipped. -/
theorem isSpace_of_isAsciiDigit {c : Char} (h : isAsciiDigit c = true) : isSpace c = false := by
  simp only [isSpace, Bool.or_eq_false_iff, beq_eq_false_iff_ne]
  exact ⟨⟨⟨ne_of_isAsciiDigit h rfl, ne_of_isAsciiDigit h rfl⟩, ne_of_isAsciiDigit h rfl⟩,
    ne_of_isAsciiDigit h rfl⟩

/-- A value that can be read back starts with a character of its own. -/
theorem opens_write {budget : Nat} {j : Json} (h : Readable budget j) (level : Nat) :
    Opens (write level j) := by
  -- Each kind of value is written with its own first character.
  cases j with
  | null => exact ⟨'n', _, by rw [write], rfl, by decide⟩
  | boolean b =>
      cases b with
      | true => exact ⟨'t', _, by rw [write], rfl, by decide⟩
      | false => exact ⟨'f', _, by rw [write], rfl, by decide⟩
  | number n =>
      rw [write]
      cases n with
      | real d => cases budget <;> exact absurd h (by simp [Readable])
      | integer i =>
          cases i with
          | ofNat n =>
              obtain ⟨c, cs, hdigits, hc⟩ := toDigits_eq_cons n
              rw [writeNumber_natural, hdigits]
              exact ⟨c, cs, rfl, isSpace_of_isAsciiDigit hc, ne_of_isAsciiDigit hc rfl⟩
          | negSucc n =>
              rw [writeNumber_negative]
              exact ⟨'-', _, rfl, rfl, by decide⟩
  | string s => exact ⟨'"', _, by rw [write, writeString], rfl, by decide⟩
  | array items => cases items <;> exact ⟨'[', _, by rw [write], rfl, by decide⟩
  | object ms => cases ms <;> exact ⟨'\x7b', _, by rw [write], rfl, by decide⟩

section Scalars

variable {inner : Option (List Char → Read Json)} {space rest : List Char}

/-- A written natural number is read back as a value. -/
theorem valueWith_natural (hspace : Blank space) (hrest : Detached rest) {n : Nat}
    (hn : n < 2 ^ 64) :
    valueWith inner (space ++ (Nat.toDigits 10 n ++ rest))
      = .ok (.number (.integer n), rest) := by
  have hread : unsignedNumber false (Nat.toDigits 10 n ++ rest) = .ok (.integer n, rest) :=
    unsignedNumber_toDigits (by rw [maxSignificand, pow2_eq]; omega) hrest false
  obtain ⟨c, cs, hdigits, hc⟩ := toDigits_eq_cons n
  rw [hdigits, List.cons_append] at hread ⊢
  rw [valueWith]
  rw [skipSpace_blank hspace (isSpace_of_isAsciiDigit hc)]
  -- a digit is none of the characters that are looked for before
  simp only [if_neg (ne_of_isAsciiDigit hc (show isAsciiDigit 'n' = false from rfl)),
    if_neg (ne_of_isAsciiDigit hc (show isAsciiDigit 't' = false from rfl)),
    if_neg (ne_of_isAsciiDigit hc (show isAsciiDigit 'f' = false from rfl)),
    if_neg (ne_of_isAsciiDigit hc (show isAsciiDigit '-' = false from rfl)), hc, if_true, hread]

/-- A written negative number is read back as a value. -/
theorem valueWith_negative (hspace : Blank space) (hrest : Detached rest) {n : Nat}
    (hn : n + 1 ≤ 2 ^ 63) :
    valueWith inner (space ++ ('-' :: (Nat.toDigits 10 (n + 1) ++ rest)))
      = .ok (.number (.integer (Int.negSucc n)), rest) := by
  have hwhole : wholeNumber true (n + 1) rest = .ok (.integer (Int.negSucc n), rest) := by
    rw [wholeNumber, if_pos rfl, pow2_eq, if_neg (by omega)]
    rfl
  have hread : unsignedNumber true (Nat.toDigits 10 (n + 1) ++ rest)
      = .ok (.integer (Int.negSucc n), rest) := by
    rw [unsignedNumber_toDigits (by rw [maxSignificand, pow2_eq]; omega) hrest true, hwhole]
  rw [valueWith]
  rw [skipSpace_blank hspace rfl]
  simp [hread]

/-- A written string is read back as a value. -/
theorem valueWith_string (hspace : Blank space) (s : String) :
    valueWith inner (space ++ (writeString s ++ rest)) = .ok (.string s, rest) := by
  have hread := stringRest_writeString s rest
  rw [valueWith]
  rw [writeString, List.cons_append, skipSpace_blank hspace rfl]
  simp only [List.append_assoc, List.cons_append, List.nil_append]
  simp [hread, show isAsciiDigit '"' = false from rfl]

/-- A written scalar is read back as a value, whatever can be read inside values. -/
theorem valueWith_scalar (hspace : Blank space) (hrest : Detached rest) {j : Json}
    (h : Readable 0 j) (level : Nat) :
    valueWith inner (space ++ (write level j ++ rest)) = .ok (j, rest) := by
  cases j with
  | null =>
      rw [write]
      rw [valueWith]
      rw [List.cons_append, skipSpace_blank hspace rfl]
      rfl
  | boolean b =>
      cases b with
      | true =>
          rw [write]
          rw [valueWith]
          rw [List.cons_append, skipSpace_blank hspace rfl]
          rfl
      | false =>
          rw [write]
          rw [valueWith]
          rw [List.cons_append, skipSpace_blank hspace rfl]
          rfl
  | number n =>
      rw [write]
      cases n with
      | real d => exact h.elim
      | integer i =>
          have hrange : -(2 ^ 63) ≤ i ∧ i < 2 ^ 64 := h
          cases i with
          | ofNat n =>
              rw [writeNumber_natural]
              rw [Int.ofNat_eq_natCast] at hrange
              exact valueWith_natural hspace hrest (by omega)
          | negSucc n =>
              rw [writeNumber_negative]
              exact valueWith_negative hspace hrest (by omega)
  | string s =>
      rw [write]
      exact valueWith_string hspace s
  | array items => exact h.elim
  | object ms => exact h.elim

end Scalars

/-! ## Containers -/

section Containers

variable {item : List Char → Read Json}

/-- A plain reader as a typed one. -/
def asTyped (item : List Char → Read Json) (cs : List Char) : Typed Json := typed (item cs)

theorem typed_eq_ok_iff {α : Type} {r : Except Stop α} {x : α} :
    typed r = .ok x ↔ r = .ok x := by
  unfold typed
  cases r <;> simp

theorem asTyped_eq_ok_iff {cs : List Char} {r : Json × List Char} :
    asTyped item cs = .ok r ↔ item cs = .ok r := typed_eq_ok_iff

/-- The typed loop over items does what the plain one does. -/
theorem typedItems_asTyped (bound : List Char) (first : Bool) (cs : List Char) :
    typedItems (asTyped item) bound first cs = typed (items item bound first cs) := by
  induction bound generalizing first cs with
  | nil => rfl
  | cons b bound ih =>
      rw [typedItems, items]
      cases hnext : nextItem first cs with
      | error s => rfl
      | ok p =>
          obtain ⟨more, rest⟩ := p
          cases more with
          | false => rfl
          | true =>
              simp only [asTyped]
              cases hitem : item rest with
              | error s => rfl
              | ok q =>
                  obtain ⟨x, rest'⟩ := q
                  simp only [typed]
                  rw [ih]
                  cases items item bound false rest' <;> rfl

/-- Puts a member behind those that were read. -/
def collect (item : List Char → Read Json) (done : List (String × Json)) (key : String)
    (cs : List Char) : Typed (List (String × Json)) :=
  match memberValue (asTyped item) cs with
  | .error h => .error h
  | .ok (x, rest) => .ok (done ++ [(key, x)], rest)

/-- The typed loop over members collects what the plain one reads. -/
theorem typedMembers_collect (bound : List Char) (first : Bool) (done : List (String × Json))
    (cs : List Char) :
    typedMembers (collect item) bound first done cs
      = typed ((members item bound first cs).map fun p => (done ++ p.1, p.2)) := by
  -- The one loop gathers from the front and the other from the back, so the members read so far
  -- stand in front.
  induction bound generalizing first done cs with
  | nil => rfl
  | cons b bound ih =>
      rw [typedMembers, members]
      cases hnext : nextKey first cs with
      | error s => rfl
      | ok p =>
          obtain ⟨key, after⟩ := p
          cases key with
          | none =>
              show Except.ok (done, after) = Except.ok (done ++ [], after)
              rw [List.append_nil]
          | some key =>
              simp only [collect, memberValue]
              cases hcolon : expectColon after with
              | error s => rfl
              | ok after' =>
                  simp only [asTyped]
                  cases hitem : item after' with
                  | error s => rfl
                  | ok q =>
                      obtain ⟨x, after''⟩ := q
                      simp only [typed] at ih ⊢
                      rw [ih]
                      cases members item bound false after'' with
                      | error s => rfl
                      | ok r => simp [Except.map]

/-- Reading items into values is what the typed loop does if nothing is decoded. -/
theorem typedItems_asTyped_eq_ok_iff {bound : List Char} {first : Bool} {cs rest : List Char}
    {xs : List Json} :
    typedItems (asTyped item) bound first cs = .ok (xs, rest)
      ↔ items item bound first cs = .ok (xs, rest) := by
  rw [typedItems_asTyped, typed_eq_ok_iff]

/-- So it is with members that are collected. -/
theorem typedMembers_collect_eq_ok_iff {bound : List Char} {first : Bool}
    {cs rest : List Char} {ms : List (String × Json)} :
    typedMembers (collect item) bound first [] cs = .ok (ms, rest)
      ↔ members item bound first cs = .ok (ms, rest) := by
  rw [typedMembers_collect, typed_eq_ok_iff]
  cases members item bound first cs with
  | error s => simp [Except.map]
  | ok p => simp [Except.map, Prod.ext_iff]

/-- A list is read as a value if its items are. -/
theorem valueWith_list {cs rest after last : List Char} {xs : List Json}
    (hspace : skipSpace cs = '[' :: rest)
    (hloop : items item ('[' :: rest) true rest = .ok (xs, after))
    (hclose : closeList after = .ok last) : valueWith (some item) cs = .ok (.array xs, last) := by
  rw [valueWith]
  rw [hspace]
  simp [hloop, hclose, show isAsciiDigit '[' = false from rfl]

/-- An object is read as a value if its members are. -/
theorem valueWith_object {cs rest after last : List Char} {ms : List (String × Json)}
    (hspace : skipSpace cs = '\x7b' :: rest)
    (hloop : members item ('\x7b' :: rest) true rest = .ok (ms, after))
    (hclose : closeObject after = .ok last) :
    valueWith (some item) cs = .ok (.object ms, last) := by
  rw [valueWith]
  rw [hspace]
  simp [hloop, hclose, show isAsciiDigit '\x7b' = false from rfl]

/-- A list of values is read as a value. -/
theorem valueWith_of_readList {cs rest : List Char} {xs : List Json}
    (h : readList (asTyped item) cs = .ok (xs, rest)) :
    valueWith (some item) cs = .ok (.array xs, rest) := by
  rw [readList] at h
  split at h
  · cases h
  · next c after hspace =>
    split at h
    · next hc =>
      split at h
      · cases h
      · next ys after' hloop =>
        split at h
        · cases h
        · next after'' hclose =>
          cases h
          subst hc
          exact valueWith_list hspace (typedItems_asTyped_eq_ok_iff.mp hloop) hclose
    · cases h

/-- An object of values is read as a value. -/
theorem valueWith_of_readObject {expected : String} {cs rest : List Char}
    {ms : List (String × Json)}
    (h : readObject expected (collect item) [] .ok cs = .ok (ms, rest)) :
    valueWith (some item) cs = .ok (.object ms, rest) := by
  rw [readObject] at h
  split at h
  · cases h
  · next c after hspace =>
    split at h
    · next hc =>
      rw [objectRest] at h
      split at h
      · cases h
      · next last after' hloop =>
        simp only at h
        split at h
        · cases h
        · next after'' hclose =>
          cases h
          subst hc
          exact valueWith_object hspace (typedMembers_collect_eq_ok_iff.mp hloop) hclose
    · cases h

/-- Members whose values are read back are collected. -/
theorem takes_collect {level : Nat} {ms : List (String × Json)}
    (h : ∀ m ∈ ms, ReadsBack (asTyped item) (write level m.2) m.2)
    (done : List (String × Json)) : Takes (collect item) level done ms (done ++ ms) := by
  induction ms generalizing done with
  | nil =>
      rw [List.append_nil]
      exact Takes.nil done
  | cons m ms ih =>
      obtain ⟨key, j⟩ := m
      rw [List.forall_mem_cons] at h
      have hlast : done ++ (key, j) :: ms = (done ++ [(key, j)]) ++ ms := by simp
      rw [hlast]
      refine Takes.cons ?_ (ih h.2 _)
      intro rest hrest
      rw [collect, memberValue_readsBack h.1 hrest]

end Containers

/-! ## Values -/

/-- **VALUES**: a written value is read back inside any text. -/
theorem readsBack_value {budget : Nat} {j : Json} (h : Readable budget j) (level : Nat) :
    ReadsBack (asTyped (value budget)) (write level j) j := by
  induction budget generalizing j level with
  | zero =>
      -- nothing may be opened any more, so the value is a scalar
      intro space rest hspace hrest
      rw [asTyped_eq_ok_iff]
      exact valueWith_scalar hspace hrest h level
  | succ budget ih =>
      intro space rest hspace hrest
      rw [asTyped_eq_ok_iff]
      show valueWith (some (value budget)) _ = _
      cases j with
      | array items =>
          have hitems : ∀ item ∈ items, Readable budget item := h
          have hlist := readsBack_list (fun j => j)
            (fun item hitem => ih (hitems item hitem) (level + 1))
            (fun item hitem => opens_write (hitems item hitem) (level + 1))
          rw [List.map_id'] at hlist
          exact valueWith_of_readList (hlist space rest hspace hrest)
      | object ms =>
          have hms : ∀ m ∈ ms, Readable budget m.2 := h
          have htakes := takes_collect (fun m hm => ih (hms m hm) (level + 1)) []
          have hobject := readsBack_object "" .ok htakes rfl
          exact valueWith_of_readObject (hobject space rest hspace hrest)
      -- scalars do not use the budget
      | null => exact valueWith_scalar (j := .null) hspace hrest trivial level
      | boolean b => exact valueWith_scalar (j := .boolean b) hspace hrest trivial level
      | number n => exact valueWith_scalar hspace hrest (by cases n <;> exact h) level
      | string s => exact valueWith_scalar (j := .string s) hspace hrest trivial level

/-- A printed value is read back as a tree, repeated keys kept. -/
theorem readTree_write {j : Json} (h : Readable depthLimit j) : readTree (write 0 j) = .ok j := by
  have hvalue := asTyped_eq_ok_iff.mp (readsBack_value h 0 [] [] blank_nil detached_nil)
  rw [List.nil_append, List.append_nil] at hvalue
  rw [readTree]
  rw [hvalue]
  rfl

/-- **PRINTED TEXTS**: a printed value is read back with its repeated keys settled. -/
theorem ofText_pretty {j : Json} (h : Readable depthLimit j) :
    ofText j.pretty = .ok j.settle := by
  rw [ofText, pretty]
  rw [String.toList_ofList, readTree_write h]

end Bindery.Json
