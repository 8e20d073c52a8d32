import Bindery.Proofs.Declaration.Tiling

/-!
# Bytes and parts of a text

What a position in bytes means for a text.  A part of the text can be taken between two bytes
if both are boundaries of characters, and it is what stands there (`slice?_eq_some_iff`);
else there is no such part.

A byte is looked at as the character that has its number (`codeUnits`).  An ASCII character is
a byte by itself, and all bytes of other characters are above 127, so that none of them can be
taken for a quote, a star or a line feed.
-/

namespace Bindery.Cursor

open Text Declaration

/-! ## Parts of a text -/

/-- What is left behind the given number of bytes, if a character begins or the text ends
there. -/
def dropBytes : Nat → List Char → Option (List Char)
  | 0, cs => some cs
  | _ + 1, [] => none
  | n + 1, c :: cs => if c.utf8Size ≤ n + 1 then dropBytes (n + 1 - c.utf8Size) cs else none

/-- The characters in the given number of bytes, if a character begins or the text ends behind
them. -/
def takeBytes : Nat → List Char → Option (List Char)
  | 0, _ => some []
  | _ + 1, [] => none
  | n + 1, c :: cs =>
      if c.utf8Size ≤ n + 1 then (takeBytes (n + 1 - c.utf8Size) cs).map (c :: ·) else none

/-- The part of a text between two bytes. -/
def slice? (cs : List Char) (start stop : Nat) : Option (List Char) :=
  if start ≤ stop then (dropBytes start cs).bind (takeBytes (stop - start)) else none

section Slices

variable {n start stop : Nat} {cs ds part : List Char}

theorem dropBytes_zero (cs : List Char) : dropBytes 0 cs = some cs := by
  cases cs <;> rfl

theorem takeBytes_zero (cs : List Char) : takeBytes 0 cs = some [] := by
  cases cs <;> rfl

theorem byteSize_cons (c : Char) (cs : List Char) :
    byteSize (c :: cs) = c.utf8Size + byteSize cs := rfl

theorem dropBytes_cons (c : Char) (cs : List Char) (n : Nat) :
    dropBytes (c.utf8Size + n) (c :: cs) = dropBytes n cs := by
  obtain ⟨m, hm⟩ : ∃ m, c.utf8Size + n = m + 1 :=
    ⟨c.utf8Size + n - 1, by have := c.utf8Size_pos; omega⟩
  rw [hm, dropBytes, ← hm, if_pos (Nat.le_add_right _ _), Nat.add_sub_cancel_left]

theorem takeBytes_cons (c : Char) (cs : List Char) (n : Nat) :
    takeBytes (c.utf8Size + n) (c :: cs) = (takeBytes n cs).map (c :: ·) := by
  obtain ⟨m, hm⟩ : ∃ m, c.utf8Size + n = m + 1 :=
    ⟨c.utf8Size + n - 1, by have := c.utf8Size_pos; omega⟩
  rw [hm, takeBytes, ← hm, if_pos (Nat.le_add_right _ _), Nat.add_sub_cancel_left]

/-- Dropping the bytes of a text leaves what stands behind it. -/
theorem dropBytes_append (cs ds : List Char) : dropBytes (byteSize cs) (cs ++ ds) = some ds := by
  induction cs with
  | nil => exact dropBytes_zero ds
  | cons c cs ih => rw [byteSize_cons, List.cons_append, dropBytes_cons, ih]

/-- Taking the bytes of a text gives the text. -/
theorem takeBytes_append (cs ds : List Char) : takeBytes (byteSize cs) (cs ++ ds) = some cs := by
  induction cs with
  | nil => exact takeBytes_zero ds
  | cons c cs ih =>
      rw [byteSize_cons, List.cons_append, takeBytes_cons, ih]
      rfl

/-- Bytes can be dropped up to a boundary only. -/
theorem append_of_dropBytes (h : dropBytes n cs = some ds) :
    ∃ front, cs = front ++ ds ∧ byteSize front = n := by
  fun_induction dropBytes n cs with
  | case1 => exact ⟨[], Option.some.inj h, rfl⟩
  | case2 => cases h
  | case3 n c cs hle ih =>
      obtain ⟨front, hfront, hsize⟩ := ih h
      refine ⟨c :: front, by rw [hfront]; rfl, ?_⟩
      rw [byteSize_cons, hsize]
      omega
  | case4 => cases h

/-- The same for taking them. -/
theorem append_of_takeBytes (h : takeBytes n cs = some part) :
    ∃ behind, cs = part ++ behind ∧ byteSize part = n := by
  fun_induction takeBytes n cs generalizing part with
  | case1 cs =>
      cases h
      exact ⟨cs, rfl, rfl⟩
  | case2 => cases h
  | case3 n c cs hle ih =>
      obtain ⟨part', htake, rfl⟩ := Option.map_eq_some_iff.mp h
      obtain ⟨behind, hbehind, hsize⟩ := ih htake
      refine ⟨behind, by rw [hbehind]; rfl, ?_⟩
      rw [byteSize_cons, hsize]
      omega
  | case4 => cases h

/-- **THE PARTS OF A TEXT ARE WHAT STANDS BETWEEN BOUNDARIES.** -/
theorem slice?_eq_some_iff (source : String) :
    slice? source.toList start stop = some part ↔ StandsAt source start stop part := by
  rw [slice?]
  -- A slice drops bytes and takes bytes, and both succeed only where a character ends.
  constructor
  · intro h
    split at h
    · next hle =>
      obtain ⟨ds, hdrop, htake⟩ := Option.bind_eq_some_iff.mp h
      obtain ⟨front, hsource, hfront⟩ := append_of_dropBytes hdrop
      obtain ⟨behind, hds, hpart⟩ := append_of_takeBytes htake
      refine ⟨front, behind, ?_, hfront, ?_⟩
      · rw [hsource, hds, List.append_assoc]
      · rw [byteSize_append]
        omega
    · cases h
  · rintro ⟨front, behind, hsource, rfl, rfl⟩
    have hpart : byteSize (front ++ part) - byteSize front = byteSize part := by
      rw [byteSize_append, Nat.add_sub_cancel_left]
    rw [if_pos (by rw [byteSize_append]; exact Nat.le_add_right _ _), hpart, hsource,
      List.append_assoc, dropBytes_append]
    exact takeBytes_append part behind

/-- A part of a text is cut out between its boundaries. -/
theorem slice?_append (front part behind : List Char) :
    slice? (front ++ part ++ behind) (byteSize front) (byteSize front + byteSize part)
      = some part := by
  rw [slice?, if_pos (Nat.le_add_right _ _), Nat.add_sub_cancel_left, List.append_assoc,
    dropBytes_append]
  exact takeBytes_append part behind

end Slices

/-! ## Bytes -/

/-- The bytes of a character, each as the character of its number. -/
def codeUnits (c : Char) : List Char :=
  (String.utf8EncodeChar c).map fun b => Char.ofNat b.toNat

/-- The bytes of a text. -/
def bytesOf (cs : List Char) : List Char := cs.flatMap codeUnits

section Bytes

variable {c : Char}

/-- An ASCII character is one byte, itself. -/
theorem codeUnits_ascii (h : c.toNat < 0x80) : codeUnits c = [c] := by
  have hle : c.val.toNat ≤ 127 := Nat.le_of_lt_succ h
  have hbyte : (UInt8.ofNat c.val.toNat).toNat = c.toNat := by
    rw [UInt8.toNat_ofNat']
    exact Nat.mod_eq_of_lt (by show c.val.toNat < 2 ^ 8; omega)
  rw [codeUnits, String.utf8EncodeChar]
  simp only [if_pos hle, List.map_cons, List.map_nil, hbyte, Char.ofNat_toNat]

/-- The character of a number that fits in a byte has this number. -/
theorem toNat_ofNat_byte (b : UInt8) : (Char.ofNat b.toNat).toNat = b.toNat := by
  have hlt := b.toNat_lt
  rw [Char.ofNat, dif_pos (Or.inl (by omega))]
  rfl

/-- The bytes of a wide character are no ASCII characters. -/
theorem le_toNat_codeUnits (h : 0x80 ≤ c.toNat) : ∀ u ∈ codeUnits c, 0x80 ≤ u.toNat := by
  have hge : ¬ c.val.toNat ≤ 127 := Nat.not_le_of_lt h
  intro u hu
  obtain ⟨b, hb, rfl⟩ := List.mem_map.mp hu
  rw [toNat_ofNat_byte]
  -- The lead bytes and the continuation bytes all have the top bit set; the encoding has one
  -- branch for each length.
  have hlarge : ∀ n, 128 ≤ n % 256 → 128 ≤ (UInt8.ofNat n).toNat := by
    intro n hn
    rw [UInt8.toNat_ofNat']
    exact hn
  rw [String.utf8EncodeChar] at hb
  simp only [if_neg hge] at hb
  split at hb
  · simp only [List.mem_cons, List.not_mem_nil, or_false] at hb
    rcases hb with rfl | rfl <;> exact hlarge _ (by omega)
  split at hb
  · simp only [List.mem_cons, List.not_mem_nil, or_false] at hb
    rcases hb with rfl | rfl | rfl <;> exact hlarge _ (by omega)
  · simp only [List.mem_cons, List.not_mem_nil, or_false] at hb
    rcases hb with rfl | rfl | rfl | rfl <;> exact hlarge _ (by omega)

/-- A character has as many bytes as it is wide. -/
theorem length_codeUnits (c : Char) : (codeUnits c).length = c.utf8Size := by
  rw [codeUnits, List.length_map, String.length_utf8EncodeChar]

theorem length_bytesOf (cs : List Char) : (bytesOf cs).length = byteSize cs := by
  induction cs with
  | nil => rfl
  | cons c cs ih =>
      rw [bytesOf, List.flatMap_cons, List.length_append, length_codeUnits, byteSize_cons, ← ih,
        bytesOf]

end Bytes

end Bindery.Cursor
