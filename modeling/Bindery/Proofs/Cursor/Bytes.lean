import Bindery.Proofs.Cursor.Scanner

/-!
# Characters told by bytes

Why a text can be scanned by its bytes.  The classes of characters that the scanner asks for
have all characters that are not ASCII or none of them (`IsByteClass`), so every byte of a
character tells whether it is in the class.  Quotes, backslashes and line feeds are ASCII: bytes
within other characters are passed over one by one, even behind a backslash that has taken the
first one along, and the text in quotes ends where it ends character by character
(`quotedRest_bytesOf`).
-/

namespace Bindery.Cursor

open Text Declaration

/-- A class with all characters that are not ASCII or none of them. -/
def IsByteClass (p : Char → Bool) : Prop :=
  ∀ c d : Char, 0x80 ≤ c.toNat → 0x80 ≤ d.toNat → p c = p d

section Bytes

variable {p : Char → Bool} {c d u quote : Char} {oneLine : Bool} {cs rest us : List Char}

/-! ## Classes -/

/-- The bytes of a character are in such a class if the character is. -/
theorem IsByteClass.unit (h : IsByteClass p) (hu : u ∈ codeUnits c) : p u = p c := by
  rcases Nat.lt_or_ge c.toNat 0x80 with hascii | hwide
  · rw [codeUnits_ascii hascii, List.mem_singleton] at hu
    rw [hu]
  · exact h u c (le_toNat_codeUnits hwide u hu) hwide

/-- A class without wide characters is one. -/
theorem isByteClass_of_false (h : ∀ c : Char, 0x80 ≤ c.toNat → p c = false) : IsByteClass p := by
  intro c d hc hd
  rw [h c hc, h d hd]

theorem ne_of_wide (hd : d.toNat < 0x80) (hc : 0x80 ≤ c.toNat) : c ≠ d := by
  rintro rfl
  omega

/-- So is an ASCII character by itself. -/
theorem isByteClass_eq (hd : d.toNat < 0x80) : IsByteClass fun c => decide (c = d) :=
  isByteClass_of_false fun _ hc => decide_eq_false (ne_of_wide hd hc)

/-- So is everything but an ASCII character. -/
theorem isByteClass_ne (hd : d.toNat < 0x80) : IsByteClass fun c => c != d := by
  intro c e hc he
  show (c != d) = (e != d)
  rw [bne_iff_ne.mpr (ne_of_wide hd hc), bne_iff_ne.mpr (ne_of_wide hd he)]

theorem not_le_of_wide (hd : d.toNat < 0x80) (hc : 0x80 ≤ c.toNat) : ¬ c ≤ d := by
  intro hle
  have hle' : c.toNat ≤ d.toNat := hle
  omega

theorem isAsciiDigit_of_wide (hc : 0x80 ≤ c.toNat) : isAsciiDigit c = false := by
  rw [isAsciiDigit, decide_eq_false (not_le_of_wide (by decide) hc), Bool.and_false]

theorem isAsciiLetter_of_wide (hc : 0x80 ≤ c.toNat) : isAsciiLetter c = false := by
  rw [isAsciiLetter, isAsciiLower, isAsciiUpper, decide_eq_false (not_le_of_wide (by decide) hc),
    decide_eq_false (not_le_of_wide (by decide) hc), Bool.and_false, Bool.and_false]
  rfl

/-- Any wide character may begin an identifier, and so may each of its bytes. -/
theorem isIdentifierStart_of_wide (hc : 0x80 ≤ c.toNat) : isIdentifierStart c = true := by
  rw [isIdentifierStart, decide_eq_true hc, Bool.or_true]

/-- No wide character is a gap. -/
theorem isGap_of_wide (hc : 0x80 ≤ c.toNat) : isGap c = false := by
  have hne : ∀ d : Char, d.toNat < 0x80 → (c == d) = false := fun d hd =>
    beq_eq_false_iff_ne.mpr (ne_of_wide hd hc)
  rw [isGap, hne, hne, hne, hne, hne, hne] <;> decide

theorem isByteClass_isGap : IsByteClass isGap :=
  isByteClass_of_false fun _ hc => isGap_of_wide hc

theorem isByteClass_isAsciiDigit : IsByteClass isAsciiDigit :=
  isByteClass_of_false fun _ hc => isAsciiDigit_of_wide hc

/-- Where an identifier begins is seen by bytes as by characters. -/
theorem isByteClass_isIdentifierStart : IsByteClass isIdentifierStart := by
  intro c d hc hd
  rw [isIdentifierStart_of_wide hc, isIdentifierStart_of_wide hd]

/-- How far an identifier goes is seen by bytes as by characters. -/
theorem isByteClass_isIdentifierPart : IsByteClass isIdentifierPart := by
  intro c d hc hd
  rw [isIdentifierPart, isIdentifierPart, isIdentifierStart_of_wide hc,
    isIdentifierStart_of_wide hd, Bool.true_or, Bool.true_or]

/-- So it is with numbers. -/
theorem isByteClass_isNumberPart : IsByteClass isNumberPart := by
  refine isByteClass_of_false fun c hc => ?_
  have hne : ∀ d : Char, d.toNat < 0x80 → (c == d) = false := fun d hd =>
    beq_eq_false_iff_ne.mpr (ne_of_wide hd hc)
  rw [isNumberPart, isAsciiLetter_of_wide hc, isAsciiDigit_of_wide hc, hne '.' (by decide),
    hne '_' (by decide)]
  rfl

/-! ## The bytes of a text -/

theorem bytesOf_cons (c : Char) (cs : List Char) : bytesOf (c :: cs) = codeUnits c ++ bytesOf cs :=
  rfl

theorem bytesOf_append (cs ds : List Char) : bytesOf (cs ++ ds) = bytesOf cs ++ bytesOf ds :=
  List.flatMap_append

/-- An ASCII character is its own byte. -/
theorem bytesOf_cons_ascii (hc : c.toNat < 0x80) (cs : List Char) :
    bytesOf (c :: cs) = c :: bytesOf cs := by
  rw [bytesOf_cons, codeUnits_ascii hc]
  rfl

/-- A character has a first byte. -/
theorem codeUnits_eq_cons (c : Char) : ∃ u us, codeUnits c = u :: us := by
  refine List.exists_cons_of_length_pos ?_
  rw [length_codeUnits]
  exact c.utf8Size_pos

/-- The first byte of a text tells the classes of its first character. -/
theorem bytesOf_head (c : Char) (cs : List Char) :
    ∃ u, (bytesOf (c :: cs))[0]? = some u ∧ ∀ p, IsByteClass p → p u = p c := by
  obtain ⟨u, us, hunits⟩ := codeUnits_eq_cons c
  refine ⟨u, by rw [bytesOf_cons, hunits]; rfl, fun p hp => hp.unit ?_⟩
  rw [hunits]
  exact List.mem_cons_self

/-- A class without wide characters has ASCII characters only. -/
theorem ascii_of_class (hwide : ∀ c : Char, 0x80 ≤ c.toNat → p c = false) (hc : p c = true) :
    c.toNat < 0x80 := by
  by_contra hge
  rw [hwide c (Nat.le_of_not_lt hge)] at hc
  cases hc

/-- An ASCII character is ahead exactly if its byte is. -/
theorem bytesOf_head_eq_iff (hd : d.toNat < 0x80) (cs : List Char) :
    (bytesOf cs)[0]? = some d ↔ cs.head? = some d := by
  cases cs with
  | nil => exact ⟨nofun, nofun⟩
  | cons c cs =>
      obtain ⟨u, hu, hclass⟩ := bytesOf_head c cs
      have hsame := hclass _ (isByteClass_eq hd)
      rw [decide_eq_decide] at hsame
      rw [hu, List.head?_cons, Option.some.injEq, Option.some.injEq]
      exact hsame

/-- A run of bytes is the bytes of a run. -/
theorem dropWhile_bytesOf (hp : IsByteClass p) (cs : List Char) :
    (bytesOf cs).dropWhile p = bytesOf (cs.dropWhile p) := by
  induction cs with
  | nil => rfl
  | cons c cs ih =>
      rw [bytesOf_cons]
      by_cases hc : p c = true
      · rw [List.dropWhile_cons_of_pos hc, List.dropWhile_append_of_pos, ih]
        intro u hu
        rw [hp.unit hu, hc]
      · obtain ⟨u, us, hunits⟩ := codeUnits_eq_cons c
        have hu : ¬ p u = true := by
          rw [hp.unit (by rw [hunits]; exact List.mem_cons_self)]
          exact hc
        rw [List.dropWhile_cons_of_neg hc, hunits, List.cons_append, List.dropWhile_cons_of_neg hu,
          bytesOf_cons, hunits]
        rfl

/-! ## Texts in quotes -/

/-- One turn of reading a text in quotes, at a character that escapes nothing. -/
theorem quotedRest_cons (hc : c ≠ '\\') (hline : quote ≠ '\n') (cs : List Char) :
    quotedRest quote oneLine (c :: cs)
      = if c = '\n' ∧ oneLine = true then none
        else if c = quote then some ([c], cs)
        else (quotedRest quote oneLine cs).map fun (taken, rest) => (c :: taken, rest) := by
  cases cs with
  | nil =>
      show (if c = quote then some ([c], []) else none) = _
      by_cases hquote : c = quote
      · rw [if_pos hquote, if_neg fun h => hline (hquote.symm.trans h.1), if_pos hquote]
      · rw [if_neg hquote, if_neg hquote]
        split <;> rfl
  | cons d cs =>
      rw [quotedRest, if_neg hc]
      split
      · rfl
      split
      · rfl
      · cases quotedRest quote oneLine (d :: cs) <;> rfl

/-- Behind a backslash one character is taken, whichever it is. -/
theorem quotedRest_escape (d : Char) (cs : List Char) :
    quotedRest quote oneLine ('\\' :: d :: cs)
      = (quotedRest quote oneLine cs).map fun (taken, rest) => ('\\' :: d :: taken, rest) := by
  rw [quotedRest, if_pos rfl]
  cases quotedRest quote oneLine cs <;> rfl

/-- Bytes within characters that are not ASCII are passed over. -/
theorem quotedRest_wide (hquote : quote.toNat < 0x80) (hline : quote ≠ '\n')
    (hus : ∀ u ∈ us, 0x80 ≤ u.toNat) (bs : List Char) :
    quotedRest quote oneLine (us ++ bs)
      = (quotedRest quote oneLine bs).map fun (taken, rest) => (us ++ taken, rest) := by
  induction us with
  | nil =>
      rw [List.nil_append]
      cases quotedRest quote oneLine bs <;> rfl
  | cons u us ih =>
      rw [List.forall_mem_cons] at hus
      have hnl : ¬ (u = '\n' ∧ oneLine = true) := fun h => ne_of_wide (by decide) hus.1 h.1
      rw [List.cons_append, quotedRest_cons (ne_of_wide (by decide) hus.1) hline, if_neg hnl,
        if_neg (ne_of_wide hquote hus.1), ih hus.2]
      cases quotedRest quote oneLine bs <;> rfl

/-- If the first byte of a character has been taken along, its other bytes are passed over. -/
theorem quotedRest_units (hquote : quote.toNat < 0x80) (hline : quote ≠ '\n')
    (hunits : codeUnits c = u :: us) (bs : List Char) :
    quotedRest quote oneLine (us ++ bs)
      = (quotedRest quote oneLine bs).map fun (taken, rest) => (us ++ taken, rest) := by
  rcases Nat.lt_or_ge c.toNat 0x80 with hsmall | hlarge
  · rw [codeUnits_ascii hsmall] at hunits
    rw [← (List.cons.inj hunits).2]
    cases h : quotedRest quote oneLine bs <;> simp [h]
  · refine quotedRest_wide hquote hline (fun v hv => ?_) bs
    refine le_toNat_codeUnits hlarge v ?_
    rw [hunits]
    exact List.mem_cons_of_mem u hv

/-- **QUOTES ARE CLOSED BY BYTES AS BY CHARACTERS.** -/
theorem quotedRest_bytesOf (hquote : quote.toNat < 0x80) (hescape : quote ≠ '\\')
    (hline : quote ≠ '\n') (cs : List Char) :
    quotedRest quote oneLine (bytesOf cs)
      = (quotedRest quote oneLine cs).map fun (taken, rest) => (bytesOf taken, bytesOf rest) := by
  induction hn : cs.length using Nat.strongRecOn generalizing cs with
  | ind n ih =>
  cases cs with
  | nil => rfl
  | cons c cs =>
      rw [List.length_cons] at hn
      have hrest := ih cs.length (by omega) cs rfl
      rcases Nat.lt_or_ge c.toNat 0x80 with hascii | hwide
      · by_cases hc : c = '\\'
        · subst hc
          cases cs with
          | nil =>
              rw [bytesOf_cons_ascii (by decide)]
              show quotedRest quote oneLine ['\\'] = _
              rw [quotedRest, if_neg (Ne.symm hescape)]
              rfl
          | cons d cs =>
              -- the first byte of what follows is taken along, and the others are passed over
              obtain ⟨u, us, hunits⟩ := codeUnits_eq_cons d
              rw [bytesOf_cons_ascii (by decide), bytesOf_cons, hunits, List.cons_append,
                quotedRest_escape, quotedRest_escape, quotedRest_units hquote hline hunits,
                ih cs.length (by rw [List.length_cons] at hn; omega) cs rfl]
              cases quotedRest quote oneLine cs with
              | none => rfl
              | some r =>
                  simp only [Option.map_some, bytesOf_cons_ascii (show '\\'.toNat < 0x80 by decide),
                    bytesOf_cons, hunits, List.cons_append]
        · rw [bytesOf_cons_ascii hascii, quotedRest_cons hc hline, quotedRest_cons hc hline, hrest]
          split
          · rfl
          split
          · show _ = some (bytesOf [c], bytesOf cs)
            rw [bytesOf_cons_ascii hascii]
            rfl
          · cases quotedRest quote oneLine cs with
            | none => rfl
            | some r => simp only [Option.map_some, bytesOf_cons_ascii hascii]
      · have hnl : ¬ (c = '\n' ∧ oneLine = true) := fun h => ne_of_wide (by decide) hwide h.1
        rw [bytesOf_cons, quotedRest_wide hquote hline (le_toNat_codeUnits hwide), hrest,
          quotedRest_cons (ne_of_wide (by decide) hwide) hline, if_neg hnl,
          if_neg (ne_of_wide hquote hwide)]
        cases quotedRest quote oneLine cs <;> rfl

/-! ## Block comments -/

/-- The two bytes that end a comment. -/
theorem isPrefixOf_end (c d : Char) (cs : List Char) :
    List.isPrefixOf ['*', '/'] (c :: d :: cs) = true ↔ c = '*' ∧ d = '/' := by
  rw [List.isPrefixOf_iff_prefix, List.cons_prefix_cons, List.cons_prefix_cons]
  exact ⟨fun h => ⟨h.1.symm, h.2.1.symm⟩, fun h => ⟨h.1.symm, h.2.symm, List.nil_prefix⟩⟩

/-- The end of a comment is found where its body ends. -/
theorem find?_commentBody (cs : List Char) :
    find? ['*', '/'] cs = (commentBody cs).map fun (body, _) => byteSize body := by
  fun_induction commentBody cs with
  | case1 => rfl
  | case2 c =>
      have hnot : ¬ List.isPrefixOf ['*', '/'] [c] = true := by simp [List.isPrefixOf]
      rw [find?, if_neg hnot]
      rfl
  | case3 c d cs hend =>
      rw [find?, if_pos ((isPrefixOf_end c d cs).mpr hend)]
      rfl
  | case4 c d cs hend hnone ih =>
      rw [find?, if_neg (hend ∘ (isPrefixOf_end c d cs).mp), ih, hnone]
      rfl
  | case5 c d cs hend body rest hbody ih =>
      rw [find?, if_neg (hend ∘ (isPrefixOf_end c d cs).mp), ih, hbody]
      rfl

end Bytes

end Bindery.Cursor
