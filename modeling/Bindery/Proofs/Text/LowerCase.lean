import Bindery.Text.Case
import Mathlib.Data.List.Basic

/-!
# Lower case

What lower casing makes of a character is in lower case: lowered again it stays what it is
(`lowerChar_of_mem_lowerChar`).  This is a fact on the tables.  No run leads to a code point
that a run moves, and the runs are compared two at a time and as wholes (`CaseRun.avoids`), so
that not every code point has to be looked at.

The capital sigma is lowered by its surroundings, but it does not come out of lower casing.  So a
text is left as it is exactly if its characters are in lower case (`lower_eq_self_iff`).
-/

namespace Bindery.Text

variable {c d : Char} {cs : List Char} {r : CaseRun} {n m first last stride : Nat}

/-! ## ASCII -/

theorem toNat_of_isAsciiLower (h : isAsciiLower c = true) : 97 ≤ c.toNat ∧ c.toNat ≤ 122 := by
  rw [isAsciiLower, Bool.and_eq_true, decide_eq_true_eq, decide_eq_true_eq] at h
  exact h

theorem toNat_of_isAsciiUpper (h : isAsciiUpper c = true) : 65 ≤ c.toNat ∧ c.toNat ≤ 90 := by
  rw [isAsciiUpper, Bool.and_eq_true, decide_eq_true_eq, decide_eq_true_eq] at h
  exact h

theorem toNat_of_isAsciiDigit (h : isAsciiDigit c = true) : 48 ≤ c.toNat ∧ c.toNat ≤ 57 := by
  rw [isAsciiDigit, Bool.and_eq_true, decide_eq_true_eq, decide_eq_true_eq] at h
  exact h

theorem toNat_of_isAsciiAlnum (h : isAsciiAlnum c = true) :
    97 ≤ c.toNat ∧ c.toNat ≤ 122 ∨ 65 ≤ c.toNat ∧ c.toNat ≤ 90 ∨ 48 ≤ c.toNat ∧ c.toNat ≤ 57 := by
  rw [isAsciiAlnum, isAsciiLetter, Bool.or_eq_true, Bool.or_eq_true] at h
  rcases h with (hlower | hupper) | hdigit
  · exact Or.inl (toNat_of_isAsciiLower hlower)
  · exact Or.inr (Or.inl (toNat_of_isAsciiUpper hupper))
  · exact Or.inr (Or.inr (toNat_of_isAsciiDigit hdigit))

theorem isAsciiAlnum_of_isAsciiUpper (h : isAsciiUpper c = true) : isAsciiAlnum c = true := by
  rw [isAsciiAlnum, isAsciiLetter, h, Bool.or_true, Bool.true_or]

theorem isAsciiUpper_eq_false (h : c.toNat < 65 ∨ 90 < c.toNat) : isAsciiUpper c = false := by
  rw [Bool.eq_false_iff]
  intro hupper
  have := toNat_of_isAsciiUpper hupper
  omega

/-- An ASCII character that is no capital is its own lower case form. -/
theorem lowerChar_eq_self (hascii : c.toNat < 0x80) (hupper : isAsciiUpper c = false) :
    lowerChar c = [c] := by
  rw [lowerChar, if_pos hascii, if_neg (by rw [hupper]; exact Bool.false_ne_true)]

theorem toNat_ofNat (h : n.isValidChar) : (Char.ofNat n).toNat = n := by
  rw [Char.ofNat, dif_pos h]
  rfl

/-- A character in lower case is no ASCII capital. -/
theorem isAsciiUpper_of_lowerChar_eq_self (h : lowerChar c = [c]) : isAsciiUpper c = false := by
  rw [Bool.eq_false_iff]
  intro hupper
  have hrange := toNat_of_isAsciiUpper hupper
  rw [lowerChar, if_pos (by omega), if_pos hupper, List.cons.injEq] at h
  have hnat := congrArg Char.toNat h.1
  rw [toNat_ofNat (Or.inl (by omega))] at hnat
  omega

/-! ## Where the runs lead -/

/-- Whether a run leads to none of `first, first + stride, …, last`.  These end before its image
begins, or begin behind the end of its image, or go by twos and are odd where the image is even. -/
def CaseRun.avoids (r : CaseRun) (first last stride : Nat) : Bool :=
  Nat.blt last r.image || Nat.blt (r.image + (r.last - r.first)) first
    || (stride == 2 && (r.stride == 2 || r.first == r.last) && (r.image + first) % 2 == 1)

/-- A run maps the characters of its stride in its range, each by the same distance. -/
theorem CaseRun.sends_iff :
    r.apply? n = some m
      ↔ (r.first ≤ n ∧ n ≤ r.last ∧ (n - r.first) % r.stride = 0)
        ∧ m = r.image + (n - r.first) := by
  unfold CaseRun.apply?
  split
  · next h => rw [Option.some.injEq, eq_comm, and_iff_right h]
  · next h =>
    constructor
    · intro hnone
      cases hnone
    · rintro ⟨hcovers, -⟩
      exact absurd hcovers h

/-- **THE TABLE CHECK IS SOUND**: a run that avoids a range sends nothing into it. -/
theorem CaseRun.notMem_of_avoids (havoids : r.avoids first last stride = true)
    (happly : r.apply? n = some m) : ¬ (first ≤ m ∧ m ≤ last ∧ (m - first) % stride = 0) := by
  obtain ⟨⟨hfirst, hlast, hstep⟩, rfl⟩ := CaseRun.sends_iff.mp happly
  simp only [CaseRun.avoids, Bool.or_eq_true, Bool.and_eq_true, Nat.blt_eq, beq_iff_eq] at havoids
  rintro ⟨hge, hle, hmod⟩
  rcases havoids with (hbelow | habove) | ⟨⟨hstride, heven⟩, hodd⟩
  · omega
  · omega
  · rw [hstride] at hmod
    -- an image of one code point has no parity but its own
    rcases heven with htwo | hone
    · rw [htwo] at hstep
      omega
    · omega

/-- No run leads to a code point that a run moves. -/
theorem lowerRuns_avoid_lowerRuns :
    ∀ r ∈ lowerRuns, ∀ r' ∈ lowerRuns, r.avoids r'.first r'.last r'.stride = true := by
  have hall : (lowerRuns.all fun r =>
      lowerRuns.all fun r' => r.avoids r'.first r'.last r'.stride) = true := by decide +kernel
  intro r hr r' hr'
  exact List.all_eq_true.mp (List.all_eq_true.mp hall r hr) r' hr'

/-- No run of the table gives a capital. -/
theorem lowerRuns_avoid_capitals : ∀ r ∈ lowerRuns, r.avoids 65 90 1 = true := by
  decide +kernel

/-- No run gives a character that has an expansion of its own. -/
theorem lowerRuns_avoid_expansions :
    ∀ r ∈ lowerRuns, ∀ e ∈ lowerExpansions, r.avoids e.1 e.1 1 = true := by
  decide +kernel

/-- Expansions are in lower case. -/
theorem lowerChar_expansions :
    ∀ e ∈ lowerExpansions, ∀ n ∈ e.2, lowerChar (Char.ofNat n) = [Char.ofNat n] := by
  decide +kernel

/-- A run leads to a code point that the table does not move. -/
theorem mapCase_of_sent (hr : r ∈ lowerRuns) (happly : r.apply? n = some m)
    (hcode : c.toNat = m) : mapCase lowerRuns lowerExpansions c = [c] := by
  have hlookup : lowerExpansions.lookup m = none := by
    rw [List.lookup_eq_none_iff]
    intro e he
    rw [bne_iff_ne]
    rintro rfl
    exact CaseRun.notMem_of_avoids (lowerRuns_avoid_expansions r hr e he) happly
      ⟨Nat.le_refl _, Nat.le_refl _, Nat.mod_one _⟩
  have hruns : (lowerRuns.findSome? fun r' => r'.apply? m) = none := by
    rw [List.findSome?_eq_none_iff]
    intro r' hr'
    unfold CaseRun.apply?
    refine if_neg ?_
    exact CaseRun.notMem_of_avoids (lowerRuns_avoid_lowerRuns r hr r' hr') happly
  rw [mapCase, hcode, hlookup, hruns]

/-- What a run gives no run maps any further. -/
theorem lowerChar_of_sent (hr : r ∈ lowerRuns) (happly : r.apply? n = some m) :
    lowerChar (Char.ofNat m) = [Char.ofNat m] := by
  by_cases hvalid : m.isValidChar
  · have hcode : (Char.ofNat m).toNat = m := toNat_ofNat hvalid
    by_cases hascii : m < 0x80
    · refine lowerChar_eq_self (by omega) (isAsciiUpper_eq_false ?_)
      have := CaseRun.notMem_of_avoids (lowerRuns_avoid_capitals r hr) happly
      omega
    · rw [lowerChar, if_neg (by omega), mapCase_of_sent hr happly hcode]
  · -- a number that is no character stands for the null character
    rw [Char.ofNat, dif_neg hvalid]
    rfl

/-! ## Characters -/

/-- **LOWER CASE IS LASTING**: what lower casing makes of a character stays what it is. -/
theorem lowerChar_of_mem_lowerChar (h : d ∈ lowerChar c) : lowerChar d = [d] := by
  rw [lowerChar] at h
  -- ASCII letters move by an offset, and everything else goes through the table, whose images the
  -- table leaves alone.
  by_cases hascii : c.toNat < 0x80
  · rw [if_pos hascii] at h
    by_cases hupper : isAsciiUpper c = true
    · rw [if_pos hupper] at h
      obtain rfl := List.mem_singleton.mp h
      have hrange := toNat_of_isAsciiUpper hupper
      have hcode := toNat_ofNat (n := c.toNat + 32) (Or.inl (by omega))
      exact lowerChar_eq_self (by omega) (isAsciiUpper_eq_false (by omega))
    · rw [if_neg hupper] at h
      obtain rfl := List.mem_singleton.mp h
      exact lowerChar_eq_self hascii (Bool.eq_false_iff.mpr hupper)
  · have hchar : lowerChar c = mapCase lowerRuns lowerExpansions c := if_neg hascii
    rw [if_neg hascii, mapCase] at h
    rw [mapCase] at hchar
    split at h
    · next image himage =>
      obtain ⟨k, hk, rfl⟩ := List.mem_map.mp h
      obtain ⟨front, back, heq, -⟩ := List.lookup_eq_some_iff.mp himage
      exact lowerChar_expansions (c.toNat, image) (by rw [heq]; simp) k hk
    · next hlookup =>
      split at h
      · next m hm =>
        obtain ⟨r, hr, happly⟩ := List.exists_of_findSome?_eq_some hm
        rw [List.mem_singleton.mp h]
        exact lowerChar_of_sent hr happly
      · next hnone =>
        obtain rfl := List.mem_singleton.mp h
        rw [hchar, hlookup, hnone]

/-! ## Texts -/

/-- A text in lower case stays as it is, whatever stands in front of it. -/
theorem lowerFrom_eq_self (h : ∀ c ∈ cs, lowerChar c = [c]) (before : List Char) :
    lowerFrom before cs = cs := by
  induction cs generalizing before with
  | nil => rfl
  | cons c cs ih =>
      rw [List.forall_mem_cons] at h
      -- the sigma that is lowered by its surroundings is not in lower case
      have hsigma : c ≠ 'Σ' := by
        rintro rfl
        exact absurd h.1 (by decide +kernel)
      rw [lowerFrom, if_neg hsigma, h.1, ih h.2]
      rfl

/-- Lower casing leaves characters in lower case. -/
theorem lowerChar_of_mem_lowerFrom {before : List Char} (h : d ∈ lowerFrom before cs) :
    lowerChar d = [d] := by
  induction cs generalizing before with
  | nil => exact nomatch h
  | cons c cs ih =>
      rw [lowerFrom] at h
      rcases List.mem_append.mp h with hhead | htail
      · split at hhead
        · rw [List.mem_singleton.mp hhead]
          split <;> decide +kernel
        · exact lowerChar_of_mem_lowerChar hhead
      · exact ih htail

/-- **TEXTS IN LOWER CASE**: lower casing leaves a text as it is exactly if it does so with each
of its characters. -/
theorem lower_eq_self_iff : lower cs = cs ↔ ∀ c ∈ cs, lowerChar c = [c] := by
  constructor
  · intro heq c hc
    rw [← heq] at hc
    exact lowerChar_of_mem_lowerFrom hc
  · intro h
    exact lowerFrom_eq_self h []

/-! ## Surroundings -/

/-- The lower case form of a character between what stands in front of it, nearest first, and what
stands behind it. -/
def lowerIn (before : List Char) (c : Char) (after : List Char) : List Char :=
  if c = 'Σ' then [if endsWord before after then 'ς' else 'σ'] else lowerChar c

/-- The lower case form of each character of a text. -/
def lowerEach (before : List Char) : List Char → List (List Char)
  | [] => []
  | c :: cs => lowerIn before c cs :: lowerEach (c :: before) cs

/-- Lower casing piece by piece is lower casing. -/
theorem flatten_lowerEach (before cs : List Char) :
    (lowerEach before cs).flatten = lowerFrom before cs := by
  induction cs generalizing before with
  | nil => rfl
  | cons c cs ih =>
      rw [lowerEach, List.flatten_cons, ih]
      rfl

/-- Characters that case ignores are passed over in looking for a cased one. -/
theorem meetsCased_cons (c : Char) (cs : List Char) :
    meetsCased (c :: cs) = if isCaseIgnorable c then meetsCased cs else isCased c := by
  rw [meetsCased, List.dropWhile_cons]
  by_cases hskip : isCaseIgnorable c = true
  · rw [if_pos hskip, if_pos hskip]
    rfl
  · rw [if_neg hskip, if_neg hskip]

/-- ASCII characters are lowered alike in all surroundings. -/
theorem lowerIn_ascii (h : c.toNat < 0x80) (before after : List Char) :
    lowerIn before c after = lowerChar c := by
  have hsigma : c ≠ 'Σ' := by
    rintro rfl
    exact absurd h (by decide)
  rw [lowerIn, if_neg hsigma]

/-- The sigma rule does not look past ASCII letters and digits. -/
theorem isCaseIgnorable_of_isAsciiAlnum (h : isAsciiAlnum c = true) :
    isCaseIgnorable c = false := by
  have hranges : ∀ r ∈ caseIgnorableRanges, r.2 < 48 ∨ 57 < r.1 ∧ r.2 < 65 ∨ 90 < r.1 ∧ r.2 < 97
      ∨ 122 < r.1 := by decide +kernel
  have hcode := toNat_of_isAsciiAlnum h
  rw [isCaseIgnorable, Ranges.has, List.any_eq_false]
  intro r hr hin
  rw [Bool.and_eq_true, decide_eq_true_eq, decide_eq_true_eq] at hin
  have := hranges r hr
  omega

section Surroundings

variable {before before' after after' : List Char}

/-- A character is lowered alike if what is met first on either side of it is alike; an ASCII
capital is so in any case. -/
theorem lowerIn_congr (hbefore : meetsCased before' = meetsCased before ∨ isAsciiUpper c = true)
    (hafter : meetsCased after' = meetsCased after) :
    lowerIn before' c after' = lowerIn before c after := by
  rcases hbefore with hbefore | hupper
  · rw [lowerIn, lowerIn, endsWord, endsWord, hbefore, hafter]
  · have hascii : c.toNat < 0x80 := by
      have := toNat_of_isAsciiUpper hupper
      omega
    rw [lowerIn_ascii hascii, lowerIn_ascii hascii]

/-- What is met first behind one more character. -/
theorem meetsCased_congr (h : meetsCased before' = meetsCased before ∨ isAsciiUpper c = true) :
    meetsCased (c :: before') = meetsCased (c :: before) := by
  rw [meetsCased_cons, meetsCased_cons]
  rcases h with hsame | hupper
  · rw [hsame]
  · rw [isCaseIgnorable_of_isAsciiAlnum (isAsciiAlnum_of_isAsciiUpper hupper)]
    rfl

end Surroundings

end Bindery.Text
