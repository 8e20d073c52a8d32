import Bindery.Json.Printer
import Bindery.Json.Reader
import Mathlib.Algebra.Group.Int.Defs
import Mathlib.Algebra.Group.Nat.Defs

/-!
# Reading written tokens

The reader inverts the printer on strings (`stringRest_writeString`) and on integers of 64
bits (`unsignedNumber_toDigits`).  Written integers have no fraction and no exponent, so
what follows one must not look like its continuation: `Detached` says that.
-/

namespace Bindery.Json

open Number Text

/-! ## Integers -/

theorem pow2_eq (k : Nat) : pow2 k = 2 ^ k := rfl

/-- What may follow a number without being taken for a part of it. -/
def Detached (rest : List Char) : Prop :=
  ∀ c ∈ rest.head?, isAsciiDigit c = false ∧ c ≠ '.' ∧ c ≠ 'e' ∧ c ≠ 'E'

theorem detached_nil : Detached [] := by
  intro c hc
  cases hc

theorem detached_cons {c : Char} {rest : List Char} :
    Detached (c :: rest) ↔ isAsciiDigit c = false ∧ c ≠ '.' ∧ c ≠ 'e' ∧ c ≠ 'E' := by
  simp [Detached]

/-- The digits of a number are digits. -/
theorem isAsciiDigit_of_mem_toDigits {n : Nat} {c : Char} (h : c ∈ Nat.toDigits 10 n) :
    isAsciiDigit c = true :=
  Nat.isDigit_of_mem_toDigits (by decide) (by decide) h

/-- A number other than zero is not written with a leading zero. -/
theorem head_toDigits {n : Nat} (h : 0 < n) :
    ∃ c cs, Nat.toDigits 10 n = c :: cs ∧ c ≠ '0' := by
  induction n using Nat.strongRecOn with
  | _ n ih =>
      rw [Nat.toDigits_eq_if (by decide)]
      by_cases hn : n < 10
      · rw [if_pos hn]
        refine ⟨n.digitChar, [], rfl, ?_⟩
        rw [Ne, Nat.digitChar_eq_zero]
        omega
      · rw [if_neg hn]
        obtain ⟨c, cs, hdigits, hc⟩ := ih (n / 10) (by omega) (by omega)
        exact ⟨c, cs ++ [(n % 10).digitChar], by rw [hdigits]; rfl, hc⟩

/-- Digits that fit are absorbed to the last one. -/
theorem absorb_digits {ds rest : List Char} (hds : ∀ c ∈ ds, isAsciiDigit c = true)
    (hrest : Detached rest) (s : Nat) (hfits : Nat.ofDigitChars 10 ds s ≤ maxSignificand) :
    absorb s (ds ++ rest) = (Nat.ofDigitChars 10 ds s, ds.length, rest) := by
  induction ds generalizing s with
  | nil =>
      cases rest with
      | nil => rfl
      | cons c cs =>
          have hc := (detached_cons.mp hrest).1
          rw [List.nil_append, absorb, if_neg (by rw [hc]; simp)]
          rfl
  | cons d ds ih =>
      rw [List.forall_mem_cons] at hds
      rw [Nat.ofDigitChars_cons] at hfits ⊢
      have hvalue : 10 * s + (d.toNat - '0'.toNat) = s * 10 + digitValue d := by
        rw [Nat.mul_comm]
        rfl
      rw [hvalue] at hfits ⊢
      -- what has been absorbed is never more than what it will come to
      have hstep : s * 10 + digitValue d ≤ maxSignificand := by
        refine Nat.le_trans ?_ hfits
        rw [Nat.ofDigitChars_eq_ofDigitChars_zero]
        have hpow : 1 ≤ 10 ^ ds.length := Nat.one_le_pow _ _ (by decide)
        have hmul : 1 * (s * 10 + digitValue d) ≤ 10 ^ ds.length * (s * 10 + digitValue d) :=
          Nat.mul_le_mul_right _ hpow
        omega
      rw [List.cons_append, absorb, if_pos (by rw [hds.1]; simpa using hstep), ih hds.2 _ hfits]
      rfl

/-- Behind the digits of an integer nothing belongs to it. -/
theorem afterInteger_detached {rest : List Char} (h : Detached rest) (negative : Bool)
    (n : Nat) : afterInteger negative n 0 false rest = wholeNumber negative n rest := by
  cases rest with
  | nil => rfl
  | cons c cs =>
      obtain ⟨-, hpoint, hsmall, hcapital⟩ := detached_cons.mp h
      unfold afterInteger
      split
      · next heq => exact absurd (List.cons.inj heq).1 hpoint
      · next heq => exact absurd (List.cons.inj heq).1 hsmall
      · next heq => exact absurd (List.cons.inj heq).1 hcapital
      · rfl

/-- The digits of an integer are read back. -/
theorem unsignedNumber_toDigits {n : Nat} (hn : n ≤ maxSignificand) {rest : List Char}
    (hrest : Detached rest) (negative : Bool) :
    unsignedNumber negative (Nat.toDigits 10 n ++ rest) = wholeNumber negative n rest := by
  rcases Nat.eq_zero_or_pos n with rfl | hpos
  · -- zero is the one number whose digits begin with a zero, and a digit behind it is an error
    rw [Nat.toDigits_zero]
    show unsignedNumber negative ('0' :: rest) = _
    rw [← afterInteger_detached hrest]
    cases rest with
    | nil => rfl
    | cons c cs =>
        have hc := (detached_cons.mp hrest).1
        simp only [unsignedNumber, if_true, hc, Bool.false_eq_true, if_false]
  · obtain ⟨c, cs, hdigits, hc⟩ := head_toDigits hpos
    have hdigit : isAsciiDigit c = true :=
      isAsciiDigit_of_mem_toDigits (hdigits ▸ List.mem_cons_self)
    have habsorb : absorb 0 (c :: cs ++ rest) = (n, (c :: cs).length, rest) := by
      rw [← hdigits]
      have hvalue : Nat.ofDigitChars 10 (Nat.toDigits 10 n) 0 = n :=
        Nat.ofDigitChars_ten_toDigits
      have h := absorb_digits (fun c hc => isAsciiDigit_of_mem_toDigits hc) hrest 0
        (hvalue.symm ▸ hn)
      rw [hvalue] at h
      exact h
    have hmore : rest.takeWhile isAsciiDigit = [] := by
      cases rest with
      | nil => rfl
      | cons d ds => rw [List.takeWhile_cons_of_neg (by simp [(detached_cons.mp hrest).1])]
    rw [List.cons_append] at habsorb
    rw [hdigits, List.cons_append, unsignedNumber.eq_def]
    simp only [if_neg hc, if_pos hdigit, habsorb, hmore, List.length_nil, List.isEmpty_nil,
      Bool.not_true, List.drop_zero]
    exact afterInteger_detached hrest negative n

/-! ## Strings -/

/-- A character in front of what a string goes on with. -/
def Read.prepend (c : Char) (r : Read (List Char)) : Read (List Char) :=
  match r with
  | .error s => .error s
  | .ok (xs, rest) => .ok (c :: xs, rest)

/-- In a string an ordinary character stands for itself. -/
theorem stringBody_plain {c : Char} (hquote : c ≠ '"') (hbackslash : c ≠ '\\')
    (hcontrol : ¬ c < ' ') (rest : List Char) :
    stringBody (c :: rest) = (stringBody rest).prepend c := by
  rw [stringBody.eq_def]
  simp only [if_neg hquote, if_neg hbackslash, if_neg hcontrol]
  rfl

/-- A short escape stands for one character. -/
theorem stringBody_short {e c : Char} (hu : e ≠ 'u') (he : shortEscape? e = some c)
    (rest : List Char) : stringBody ('\\' :: e :: rest) = (stringBody rest).prepend c := by
  rw [stringBody, if_neg (by decide), if_pos rfl]
  simp only [if_neg hu, he]
  rfl

/-- An escape by number stands for the character of that number. -/
theorem stringBody_unicode {cs rest : List Char} {c : Char}
    (h : unicodeEscape cs = .ok (c, rest)) :
    stringBody ('\\' :: 'u' :: cs) = (stringBody rest).prepend c := by
  rw [stringBody, if_neg (by decide), if_pos rfl]
  simp only [if_true]
  split
  · next s heq =>
    rw [h] at heq
    cases heq
  · next x r heq =>
    rw [h, Except.ok.injEq, Prod.mk.injEq] at heq
    obtain ⟨rfl, rfl⟩ := heq
    rfl

/-- The number that two digits behind two zeros stand for. -/
def lowNumber? : List Char → Option Nat
  | [a, b] => hexNumber? '0' '0' a b
  | _ => none

/-- Numbers below the space are written with two digits. -/
theorem lowNumber?_hexDigits : ∀ n < 32,
    lowNumber? (List.replicate (2 - (hexDigits n).length) '0' ++ hexDigits n) = some n := by
  decide +kernel

/-- The escape of a control character is read back. -/
theorem unicodeEscape_low {digits : List Char} {n : Nat} (hdigits : lowNumber? digits = some n)
    (hn : n < 32) (rest : List Char) :
    unicodeEscape ('0' :: '0' :: (digits ++ rest)) = .ok (Char.ofNat n, rest) := by
  unfold lowNumber? at hdigits
  split at hdigits
  · next a b =>
    -- the reader looks for four bytes first, and there are four characters
    have hbytes : ¬ byteSize ('0' :: '0' :: a :: b :: rest) < 4 := by
      have h0 : '0'.utf8Size = 1 := rfl
      have ha := Char.utf8Size_pos a
      have hb := Char.utf8Size_pos b
      simp only [byteSize, List.foldr_cons, h0]
      omega
    have hhex : hexEscape ('0' :: '0' :: a :: b :: rest) = .ok (n, rest) := by
      rw [hexEscape, if_neg hbytes]
      simp only [hdigits]
    have htrail : isTrailing n = false := by
      simp only [isTrailing, Bool.and_eq_false_iff, decide_eq_false_iff_not]
      omega
    have hlead : isLeading n = false := by
      simp only [isLeading, Bool.and_eq_false_iff, decide_eq_false_iff_not]
      omega
    show unicodeEscape ('0' :: '0' :: a :: b :: rest) = _
    rw [unicodeEscape]
    rw [hhex]
    simp only [htrail, hlead, Bool.false_eq_true, if_false]
  · cases hdigits

/-- A written character is read back. -/
theorem stringBody_writeChar (c : Char) (rest : List Char) :
    stringBody (writeChar c ++ rest) = (stringBody rest).prepend c := by
  rw [writeChar]
  -- first the characters that have a short escape
  split
  · next h => exact stringBody_short (by decide) (by rw [h]; rfl) rest
  · next hquote =>
    split
    · next h => exact stringBody_short (by decide) (by rw [h]; rfl) rest
    · next hbackslash =>
      split
      · next h => exact stringBody_short (by decide) (by rw [h]; rfl) rest
      · split
        · next h => exact stringBody_short (by decide) (by rw [h]; rfl) rest
        · split
          · next h => exact stringBody_short (by decide) (by rw [h]; rfl) rest
          · split
            · next h => exact stringBody_short (by decide) (by rw [h]; rfl) rest
            · split
              · next h => exact stringBody_short (by decide) (by rw [h]; rfl) rest
              · split
                · next hcontrol =>
                  -- the other control characters are written by their numbers
                  have hn : c.toNat < 32 := hcontrol
                  have hescape := unicodeEscape_low (lowNumber?_hexDigits c.toNat hn) hn rest
                  rw [Char.ofNat_toNat] at hescape
                  have h := stringBody_unicode hescape
                  simp only [List.append_assoc, List.cons_append, List.nil_append] at h ⊢
                  exact h
                · next hcontrol => exact stringBody_plain hquote hbackslash hcontrol rest

/-- **STRINGS**: a written string is read back, whatever follows it. -/
theorem stringRest_writeString (s : String) (rest : List Char) :
    stringRest (s.toList.flatMap writeChar ++ '"' :: rest) = .ok (s, rest) := by
  have hbody : ∀ cs : List Char,
      stringBody (cs.flatMap writeChar ++ '"' :: rest) = .ok (cs, rest) := by
    intro cs
    induction cs with
    | nil =>
        rw [List.flatMap_nil, List.nil_append, stringBody.eq_def]
        simp only [if_true]
    | cons c cs ih =>
        rw [List.flatMap_cons, List.append_assoc, stringBody_writeChar, ih]
        rfl
  rw [stringRest, hbody]
  simp

end Bindery.Json
