import Mathlib.Data.Bool.AllAny
import Bindery.Proofs.Json.RoundTrip

/-!
# The lexemes of JSON

The grammar of JSON says what words, numbers and strings look like (`IsScalar`).  The reader
takes no more of a text than the lexeme that stands there, and what it takes it for does not
depend on what follows (`ReadsAlike`), as long as that does not continue a number.  It does not
take every lexeme: a number may be too large for a double, and a string may hold one half of a
surrogate pair.
-/

namespace Bindery.Json

open Number Text

/-! ## Grammar -/

/-- One digit or more. -/
def IsDigits (ds : List Char) : Prop := ds ≠ [] ∧ ∀ c ∈ ds, isAsciiDigit c = true

/-- The digits in front of the point; a leading zero stands alone. -/
inductive IsWhole : List Char → Prop where
  | zero : IsWhole ['0']
  | digits {c : Char} {ds : List Char} :
      c ≠ '0' → isAsciiDigit c = true → (∀ d ∈ ds, isAsciiDigit d = true) → IsWhole (c :: ds)

/-- A point with digits behind it, if there is one. -/
inductive IsFraction : List Char → Prop where
  | none : IsFraction []
  | digits {ds : List Char} : IsDigits ds → IsFraction ('.' :: ds)

/-- An exponent, if there is one. -/
inductive IsExponent : List Char → Prop where
  | none : IsExponent []
  | digits {e : Char} {sign ds : List Char} :
      e ∈ ['e', 'E'] → sign ∈ [[], ['+'], ['-']] → IsDigits ds → IsExponent (e :: (sign ++ ds))

/-- A number. -/
inductive IsNumber : List Char → Prop where
  | intro {sign whole fraction exponent : List Char} :
      sign ∈ [[], ['-']] → IsWhole whole → IsFraction fraction → IsExponent exponent →
        IsNumber (sign ++ (whole ++ (fraction ++ exponent)))

/-- The hexadecimal digits. -/
def hexCharacters : List Char := "0123456789abcdefABCDEF".toList

/-- The characters between the quotes of a string: none is a quote, a backslash or a control
character, unless it is escaped. -/
inductive IsStringBody : List Char → Prop where
  | nil : IsStringBody []
  | plain {c : Char} {cs : List Char} :
      c ≠ '"' → c ≠ '\\' → ¬ c < ' ' → IsStringBody cs → IsStringBody (c :: cs)
  | short {e : Char} {cs : List Char} :
      e ∈ ['"', '\\', '/', 'b', 'f', 'n', 'r', 't'] → IsStringBody cs →
        IsStringBody ('\\' :: e :: cs)
  | unicode {a b c d : Char} {cs : List Char} :
      (∀ x ∈ [a, b, c, d], x ∈ hexCharacters) → IsStringBody cs →
        IsStringBody ('\\' :: 'u' :: a :: b :: c :: d :: cs)

/-- The words of JSON. -/
def jsonWords : List (List Char) := ["null".toList, "true".toList, "false".toList]

/-- A value without parts, as it is written. -/
inductive IsScalar : List Char → Prop where
  | word {w : List Char} : w ∈ jsonWords → IsScalar w
  | number {n : List Char} : IsNumber n → IsScalar n
  | string {cs : List Char} : IsStringBody cs → IsScalar ('"' :: (cs ++ ['"']))

/-! ## Reading alike -/

/-- What is read is what is meant, and the rest is left; what means nothing is not read. -/
inductive ReadsAs {α : Type} (rest : List Char) : Read α → Option α → Prop where
  | ok (x : α) : ReadsAs rest (.ok (x, rest)) (some x)
  | error (s : Stop) : ReadsAs rest (.error s) none

/-- The reader takes the same for a lexeme whatever follows it. -/
def ReadsAlike {α : Type} (read : List Char → Read α) (lexeme : List Char) : Prop :=
  ∃ meant, ∀ rest, Detached rest → ReadsAs rest (read (lexeme ++ rest)) meant

/-- What does not go on with a digit. -/
def NoDigit (cs : List Char) : Prop := ∀ c ∈ cs.head?, isAsciiDigit c = false

theorem Detached.noDigit {rest : List Char} (h : Detached rest) : NoDigit rest :=
  fun c hc => (h c hc).1

theorem NoDigit.dropWhile {left tail : List Char} (htail : NoDigit tail)
    (hleft : ∀ c ∈ left, isAsciiDigit c = true) :
    (left ++ tail).dropWhile isAsciiDigit = tail := by
  rw [List.dropWhile_append_of_pos hleft]
  cases tail with
  | nil => rfl
  | cons c cs => rw [List.dropWhile_cons_of_neg (by simp [htail c rfl])]

theorem NoDigit.takeWhile {left tail : List Char} (htail : NoDigit tail)
    (hleft : ∀ c ∈ left, isAsciiDigit c = true) :
    (left ++ tail).takeWhile isAsciiDigit = left := by
  rw [List.takeWhile_append_of_pos hleft]
  cases tail with
  | nil => exact List.append_nil left
  | cons c cs => rw [List.takeWhile_cons_of_neg (by simp [htail c rfl]), List.append_nil]

/-! ## Numbers -/

section Numbers

variable {ds : List Char}

/-- The digits that no longer fit stay in front of the rest. -/
theorem absorb_append (significand : Nat) (hds : ∀ c ∈ ds, isAsciiDigit c = true) :
    ∃ s n left, (∀ c ∈ left, isAsciiDigit c = true) ∧ n + left.length = ds.length
      ∧ ∀ tail, NoDigit tail → absorb significand (ds ++ tail) = (s, n, left ++ tail) := by
  -- Absorbing stops at the first digit that does not fit, and what is left begins there.
  induction ds generalizing significand with
  | nil =>
      refine ⟨significand, 0, [], List.forall_mem_nil _, rfl, fun tail htail => ?_⟩
      cases tail with
      | nil => rfl
      | cons c cs =>
          rw [List.nil_append, absorb, if_neg (by simp [htail c rfl])]
  | cons d ds ih =>
      rw [List.forall_mem_cons] at hds
      by_cases hfits : significand * 10 + digitValue d ≤ maxSignificand
      · obtain ⟨s, n, left, hleft, hlength, habsorb⟩ := ih (significand * 10 + digitValue d) hds.2
        refine ⟨s, n + 1, left, hleft, ?_, fun tail htail => ?_⟩
        · rw [List.length_cons]
          omega
        · rw [List.cons_append, absorb, if_pos (by simp [hds.1, hfits]), habsorb tail htail]
      · refine ⟨significand, 0, d :: ds, List.forall_mem_cons.mpr hds, Nat.zero_add _,
          fun tail _ => ?_⟩
        rw [List.cons_append, absorb, if_neg (by simp [hfits])]

/-- An exponent that fits has all its digits. -/
theorem absorbExponent_append (exponent : Nat) (hds : ∀ c ∈ ds, isAsciiDigit c = true) :
    ∃ e left, (∀ c ∈ left, isAsciiDigit c = true) ∧ (e ≠ none → left = [])
      ∧ ∀ tail, NoDigit tail → absorbExponent exponent (ds ++ tail) = (e, left ++ tail) := by
  induction ds generalizing exponent with
  | nil =>
      refine ⟨some exponent, [], List.forall_mem_nil _, fun _ => rfl, fun tail htail => ?_⟩
      cases tail with
      | nil => rfl
      | cons c cs =>
          rw [List.nil_append, absorbExponent, if_neg (by simp [htail c rfl])]
  | cons d ds ih =>
      rw [List.forall_mem_cons] at hds
      by_cases hlarge : maxExponent < exponent * 10 + digitValue d
      · refine ⟨none, ds, hds.2, fun h => absurd rfl h, fun tail _ => ?_⟩
        rw [List.cons_append, absorbExponent, if_pos hds.1]
        simp only [if_pos hlarge]
      · obtain ⟨e, left, hleft, hall, habsorb⟩ := ih (exponent * 10 + digitValue d) hds.2
        refine ⟨e, left, hleft, hall, fun tail htail => ?_⟩
        rw [List.cons_append, absorbExponent, if_pos hds.1]
        simp only [if_neg hlarge, habsorb tail htail]

variable (negative down long : Bool) (significand scale : Nat) (exp : Int)

theorem readsAlike_realNumber : ReadsAlike (realNumber negative significand exp) [] := by
  cases hreal : Double.ofDecimal? significand exp with
  | none =>
      refine ⟨none, fun rest _ => ?_⟩
      rw [List.nil_append, realNumber, hreal]
      exact .error _
  | some d =>
      refine ⟨some (.real (signed negative d)), fun rest _ => ?_⟩
      rw [List.nil_append, realNumber, hreal]
      exact .ok _

theorem readsAlike_wholeNumber : ReadsAlike (wholeNumber negative significand) [] := by
  by_cases hnegative : negative = true
  · by_cases hreal : significand = 0 ∨ pow2 63 < significand
    · obtain ⟨meant, hmeant⟩ := readsAlike_realNumber true significand 0
      refine ⟨meant, fun rest hrest => ?_⟩
      rw [wholeNumber, if_pos hnegative, if_pos hreal]
      exact hmeant rest hrest
    · refine ⟨some (.integer (-(significand : Int))), fun rest _ => ?_⟩
      rw [wholeNumber, if_pos hnegative, if_neg hreal]
      exact .ok _
  · refine ⟨some (.integer significand), fun rest _ => ?_⟩
    rw [wholeNumber, if_neg hnegative]
    exact .ok _

theorem readsAlike_exponentPart (h : IsDigits ds) :
    ReadsAlike (exponentPart negative significand exp down) ds := by
  obtain ⟨hne, hds⟩ := h
  obtain ⟨e, left, hleft, hall, habsorb⟩ := absorbExponent_append 0 hds
  obtain ⟨d, ds, rfl⟩ := List.exists_cons_of_ne_nil hne
  have hd : isAsciiDigit d = true := hds d List.mem_cons_self
  have habsorb : ∀ rest, NoDigit rest → absorbExponent 0 (d :: (ds ++ rest)) = (e, left ++ rest) :=
    habsorb
  -- An exponent out of range makes the number too large, which is an error, or zero.
  cases e with
  | some e =>
      obtain rfl := hall (Option.some_ne_none e)
      obtain ⟨meant, hmeant⟩ := readsAlike_realNumber negative significand
        (if down then exp - e else exp + e)
      refine ⟨meant, fun rest hrest => ?_⟩
      rw [List.cons_append, exponentPart, if_pos hd, habsorb rest hrest.noDigit]
      exact hmeant rest hrest
  | none =>
      by_cases hlarge : significand ≠ 0 ∧ down = false
      · refine ⟨none, fun rest hrest => ?_⟩
        rw [List.cons_append, exponentPart, if_pos hd, habsorb rest hrest.noDigit]
        simp only [if_pos hlarge]
        exact .error _
      · refine ⟨some (.real (signed negative Double.zero)), fun rest hrest => ?_⟩
        rw [List.cons_append, exponentPart, if_pos hd, habsorb rest hrest.noDigit]
        simp only [if_neg hlarge, hrest.noDigit.dropWhile hleft]
        exact .ok _

/-- The digits of an exponent are no sign. -/
theorem readsAlike_exponent {sign : List Char} (hsign : sign ∈ [[], ['+'], ['-']])
    (h : IsDigits ds) : ReadsAlike (exponent negative significand exp) (sign ++ ds) := by
  simp only [List.mem_cons, List.not_mem_nil, or_false] at hsign
  rcases hsign with rfl | rfl | rfl
  · obtain ⟨meant, hmeant⟩ := readsAlike_exponentPart negative false significand exp h
    refine ⟨meant, fun rest hrest => ?_⟩
    obtain ⟨d, ds, rfl⟩ := List.exists_cons_of_ne_nil h.1
    have hd : isAsciiDigit d = true := h.2 d List.mem_cons_self
    have hread : exponent negative significand exp (d :: (ds ++ rest))
        = exponentPart negative significand exp false (d :: (ds ++ rest)) := by
      rw [exponent.eq_def]
      split
      · next heq => exact absurd (List.cons.inj heq).1 (ne_of_isAsciiDigit hd rfl)
      · next heq => exact absurd (List.cons.inj heq).1 (ne_of_isAsciiDigit hd rfl)
      · rfl
    rw [List.nil_append, List.cons_append, hread]
    exact hmeant rest hrest
  · exact readsAlike_exponentPart negative false significand exp h
  · exact readsAlike_exponentPart negative true significand exp h

theorem readsAlike_exponentIfAny {ex : List Char} (h : IsExponent ex) :
    ReadsAlike (exponentIfAny negative significand exp) ex := by
  cases h with
  | none =>
      obtain ⟨meant, hmeant⟩ := readsAlike_realNumber negative significand exp
      refine ⟨meant, fun rest hrest => ?_⟩
      have hread : exponentIfAny negative significand exp rest
          = realNumber negative significand exp rest := by
        rw [exponentIfAny.eq_def]
        -- A detached rest begins with no letter of an exponent.
        split
        · exact absurd rfl (detached_cons.mp hrest).2.2.1
        · exact absurd rfl (detached_cons.mp hrest).2.2.2
        · rfl
      rw [List.nil_append, hread]
      exact hmeant rest hrest
  | digits he hsign hdigits =>
      have hexponent := readsAlike_exponent negative significand exp hsign hdigits
      simp only [List.mem_cons, List.not_mem_nil, or_false] at he
      rcases he with rfl | rfl
      · exact hexponent
      · exact hexponent

/-- What may stand behind the digits of a number does not go on with one. -/
theorem IsExponent.noDigit {ex rest : List Char} (h : IsExponent ex) (hrest : Detached rest) :
    NoDigit (ex ++ rest) := by
  cases h with
  | none => exact hrest.noDigit
  | digits he hsign hdigits =>
      intro c hc
      simp only [List.mem_cons, List.not_mem_nil, or_false] at he
      obtain rfl := Option.some.inj hc
      rcases he with rfl | rfl <;> rfl

theorem IsFraction.noDigit {fraction ex rest : List Char} (h : IsFraction fraction)
    (hex : IsExponent ex) (hrest : Detached rest) : NoDigit (fraction ++ (ex ++ rest)) := by
  cases h with
  | none => exact hex.noDigit hrest
  | digits hdigits =>
      intro c hc
      obtain rfl := Option.some.inj hc
      rfl

theorem readsAlike_fraction {ex : List Char} (h : IsDigits ds) (hex : IsExponent ex) :
    ReadsAlike (fraction negative significand exp) (ds ++ ex) := by
  obtain ⟨s, n, left, hleft, hlength, habsorb⟩ := absorb_append significand h.2
  obtain ⟨meant, hmeant⟩ := readsAlike_exponentIfAny negative s (exp - n) hex
  refine ⟨meant, fun rest hrest => ?_⟩
  have htail := hex.noDigit hrest
  rw [List.append_assoc, fraction, habsorb _ htail]
  simp only
  cases left with
  | nil =>
      -- all digits were absorbed, and there was one
      have hn : n ≠ 0 := by
        have := List.length_pos_of_ne_nil h.1
        rw [List.length_nil] at hlength
        omega
      rw [List.nil_append]
      split
      · rw [if_neg hn]
        exact hmeant rest hrest
      · next c cs heq =>
        have hc : isAsciiDigit c = false := htail c (by rw [heq]; rfl)
        rw [if_neg (by simp [hc]), if_neg hn]
        exact hmeant rest hrest
  | cons c left =>
      rw [List.cons_append]
      simp only [hleft c List.mem_cons_self, if_true]
      rw [← List.cons_append, htail.dropWhile hleft]
      exact hmeant rest hrest

theorem readsAlike_afterInteger {frac ex : List Char} (hfraction : IsFraction frac)
    (hex : IsExponent ex) :
    ReadsAlike (afterInteger negative significand scale long) (frac ++ ex) := by
  -- Without a fraction and an exponent the number is whole, unless it had too many digits to stay
  -- one.
  cases hfraction with
  | digits hdigits => exact readsAlike_fraction negative significand scale hdigits hex
  | none =>
  cases hex with
  | digits he hsign hdigits =>
      have hexponent := readsAlike_exponent negative significand scale hsign hdigits
      simp only [List.mem_cons, List.not_mem_nil, or_false] at he
      rcases he with rfl | rfl
      · exact hexponent
      · exact hexponent
  | none =>
      have hread : ∀ rest, Detached rest → afterInteger negative significand scale long rest
          = if long then realNumber negative significand scale rest
            else wholeNumber negative significand rest := by
        intro rest hrest
        rw [afterInteger.eq_def]
        split
        · exact absurd rfl (detached_cons.mp hrest).2.1
        · exact absurd rfl (detached_cons.mp hrest).2.2.1
        · exact absurd rfl (detached_cons.mp hrest).2.2.2
        · rfl
      cases long with
      | true =>
          obtain ⟨meant, hmeant⟩ := readsAlike_realNumber negative significand scale
          refine ⟨meant, fun rest hrest => ?_⟩
          rw [List.nil_append, List.nil_append, hread rest hrest]
          exact hmeant rest hrest
      | false =>
          obtain ⟨meant, hmeant⟩ := readsAlike_wholeNumber negative significand
          refine ⟨meant, fun rest hrest => ?_⟩
          rw [List.nil_append, List.nil_append, hread rest hrest]
          exact hmeant rest hrest

/-- **NUMBERS** are read alike, part by part: what is before the point, the fraction,
the exponent. -/
theorem readsAlike_unsignedNumber {whole frac ex : List Char} (hwhole : IsWhole whole)
    (hfraction : IsFraction frac) (hex : IsExponent ex) :
    ReadsAlike (unsignedNumber negative) (whole ++ (frac ++ ex)) := by
  -- A zero in front takes no digit behind it, so it is read apart from the other digits.
  cases hwhole with
  | zero =>
      obtain ⟨meant, hmeant⟩ := readsAlike_afterInteger negative false 0 0 hfraction hex
      refine ⟨meant, fun rest hrest => ?_⟩
      have htail := hfraction.noDigit hex hrest
      rw [← List.append_assoc] at htail
      have hread : unsignedNumber negative ('0' :: ((frac ++ ex) ++ rest))
          = afterInteger negative 0 0 false ((frac ++ ex) ++ rest) := by
        rw [unsignedNumber.eq_def]
        simp only [if_true]
        split
        · next d ds heq => rw [if_neg (by simp [htail d (by rw [heq]; rfl)])]
        · next heq => rfl
      rw [List.append_assoc, List.singleton_append, hread]
      exact hmeant rest hrest
  | @digits c ds hc hdigit hds =>
      obtain ⟨s, n, left, hleft, -, habsorb⟩ :=
        absorb_append 0 (List.forall_mem_cons.mpr ⟨hdigit, hds⟩)
      obtain ⟨meant, hmeant⟩ :=
        readsAlike_afterInteger negative (!left.isEmpty) s left.length hfraction hex
      refine ⟨meant, fun rest hrest => ?_⟩
      have htail := hfraction.noDigit hex hrest
      rw [← List.append_assoc] at htail
      have hread : unsignedNumber negative (c :: (ds ++ ((frac ++ ex) ++ rest)))
          = afterInteger negative s left.length (!left.isEmpty) ((frac ++ ex) ++ rest) := by
        rw [unsignedNumber.eq_def]
        simp only [if_neg hc, if_pos hdigit]
        rw [← List.cons_append, habsorb _ htail]
        simp only [htail.takeWhile hleft, List.drop_left]
      rw [List.append_assoc, List.cons_append, hread]
      exact hmeant rest hrest

end Numbers

/-! ## Strings -/

section Strings

variable {a b c d : Char} {cs : List Char}

/-- Four hexadecimal digits are a number. -/
theorem exists_hexEscape (h : ∀ x ∈ [a, b, c, d], x ∈ hexCharacters) :
    ∃ n, ∀ more, hexEscape (a :: b :: c :: d :: more) = .ok (n, more) := by
  have hdigit : ∀ x ∈ hexCharacters, (hexValue? x).isSome = true :=
    List.all_iff_forall_prop.mp (by decide)
  obtain ⟨va, ha⟩ := Option.isSome_iff_exists.mp (hdigit a (h a (by simp)))
  obtain ⟨vb, hb⟩ := Option.isSome_iff_exists.mp (hdigit b (h b (by simp)))
  obtain ⟨vc, hc⟩ := Option.isSome_iff_exists.mp (hdigit c (h c (by simp)))
  obtain ⟨vd, hd⟩ := Option.isSome_iff_exists.mp (hdigit d (h d (by simp)))
  have hnumber : hexNumber? a b c d = some (va * 4096 + vb * 256 + vc * 16 + vd) := by
    rw [hexNumber?, ha, hb, hc, hd]
    rfl
  refine ⟨va * 4096 + vb * 256 + vc * 16 + vd, fun more => ?_⟩
  -- four characters have four bytes at least, which the reader tests first
  have hbytes : ¬ byteSize (a :: b :: c :: d :: more) < 4 := by
    have h1 := Char.utf8Size_pos a
    have h2 := Char.utf8Size_pos b
    have h3 := Char.utf8Size_pos c
    have h4 := Char.utf8Size_pos d
    simp only [byteSize, List.foldr_cons]
    omega
  rw [hexEscape, if_neg hbytes]
  simp only [hnumber]

section Surrogates

variable {n : Nat} {more : List Char} (hn : hexEscape cs = .ok (n, more))
include hn

/-- The second half of a pair cannot stand first. -/
theorem unicodeEscape_trailing (htrailing : isTrailing n = true) :
    ∃ s, unicodeEscape cs = .error s := by
  rw [unicodeEscape, hn]
  simp only [if_pos htrailing]
  exact ⟨_, rfl⟩

/-- A character that is no half of a pair is taken. -/
theorem unicodeEscape_single (htrailing : ¬ isTrailing n = true) (hleading : ¬ isLeading n = true) :
    unicodeEscape cs = .ok (Char.ofNat n, more) := by
  rw [unicodeEscape, hn]
  simp only [if_neg htrailing, if_neg hleading]

variable (htrailing : ¬ isTrailing n = true) (hleading : isLeading n = true)
include htrailing hleading

/-- A leading half of a pair needs an escape behind it. -/
theorem unicodeEscape_unpaired (hmore : ∀ rest, more ≠ '\\' :: 'u' :: rest) :
    ∃ s, unicodeEscape cs = .error s := by
  rw [unicodeEscape, hn]
  simp only [if_neg htrailing, if_pos hleading]
  split
  · exact ⟨_, rfl⟩
  · exact ⟨_, rfl⟩
  · next rest => exact absurd rfl (hmore rest)
  · exact ⟨_, rfl⟩
  · exact ⟨_, rfl⟩

/-- A first half has to be followed by a second. -/
theorem unicodeEscape_pair {m : Nat} {rest last : List Char} (hmore : more = '\\' :: 'u' :: rest)
    (hm : hexEscape rest = .ok (m, last)) :
    unicodeEscape cs = if isTrailing m then .ok (pairedChar n m, last)
      else .error (Stop.before .loneSurrogate last) := by
  rw [unicodeEscape, hn]
  simp only [if_neg htrailing, if_pos hleading, hmore, hm]

end Surrogates

/-- An escape is one character, or two escapes are; half a pair is an error.  What is taken of
the string is the same whatever follows it. -/
theorem unicodeEscape_cases (h : ∀ x ∈ [a, b, c, d], x ∈ hexCharacters) (hcs : IsStringBody cs) :
    (∃ x left, IsStringBody left ∧ left.length ≤ cs.length
        ∧ ∀ rest, unicodeEscape (a :: b :: c :: d :: (cs ++ '"' :: rest))
          = .ok (x, left ++ '"' :: rest))
      ∨ ∀ rest, ∃ s, unicodeEscape (a :: b :: c :: d :: (cs ++ '"' :: rest)) = .error s := by
  obtain ⟨n, hn⟩ := exists_hexEscape h
  -- A leading surrogate needs a trailing one right behind it; every other way on from it is an
  -- error.
  by_cases htrailing : isTrailing n = true
  · exact .inr fun rest => unicodeEscape_trailing (hn _) htrailing
  by_cases hleading : isLeading n = true
  · cases hcs with
    | nil => exact .inr fun rest => unicodeEscape_unpaired (hn _) htrailing hleading nofun
    | plain hquote hbackslash hcontrol hcs =>
        refine .inr fun rest => unicodeEscape_unpaired (hn _) htrailing hleading fun rest' heq => ?_
        exact hbackslash (List.cons.inj heq).1
    | short he hcs =>
        refine .inr fun rest => unicodeEscape_unpaired (hn _) htrailing hleading fun rest' heq => ?_
        rw [(List.cons.inj (List.cons.inj heq).2).1] at he
        exact absurd he (by decide)
    | @unicode a' b' c' d' left h' hleft =>
        obtain ⟨m, hm⟩ := exists_hexEscape h'
        have hpair : ∀ rest, unicodeEscape (a :: b :: c :: d ::
              ('\\' :: 'u' :: a' :: b' :: c' :: d' :: left ++ '"' :: rest))
            = if isTrailing m then .ok (pairedChar n m, left ++ '"' :: rest)
              else .error (Stop.before .loneSurrogate (left ++ '"' :: rest)) :=
          fun rest => unicodeEscape_pair (hn _) htrailing hleading rfl (hm _)
        by_cases hpaired : isTrailing m = true
        · refine .inl ⟨pairedChar n m, left, hleft, ?_, fun rest => ?_⟩
          · simp only [List.length_cons]
            omega
          · rw [hpair, if_pos hpaired]
        · refine .inr fun rest => ?_
          rw [hpair, if_neg hpaired]
          exact ⟨_, rfl⟩
  · exact .inl ⟨Char.ofNat n, cs, hcs, Nat.le_refl _,
      fun rest => unicodeEscape_single (hn _) htrailing hleading⟩

theorem stringBody_unicode_error {s : Stop} (h : unicodeEscape cs = .error s) :
    stringBody ('\\' :: 'u' :: cs) = .error s := by
  rw [stringBody, if_neg (by decide), if_pos rfl]
  simp only [if_true]
  split
  · next heq =>
    rw [h] at heq
    cases heq
    rfl
  · next heq =>
    rw [h] at heq
    cases heq

/-- What is read goes on in the same way behind a character that is read. -/
theorem ReadsAs.prepend {rest : List Char} {r : Read (List Char)} {meant : Option (List Char)}
    (h : ReadsAs rest r meant) (c : Char) : ReadsAs rest (r.prepend c) (meant.map (c :: ·)) := by
  cases h with
  | ok xs => exact .ok (c :: xs)
  | error s => exact .error s

/-- A string ends with the first quote that is not escaped, whatever follows it. -/
theorem exists_stringBody (h : IsStringBody cs) :
    ∃ meant, ∀ rest, ReadsAs rest (stringBody (cs ++ '"' :: rest)) meant := by
  -- by length, for a pair of escapes that is read at once is two steps of the grammar
  induction hlength : cs.length using Nat.strongRecOn generalizing cs with
  | _ size ih =>
  cases h with
  | nil =>
      refine ⟨some [], fun rest => ?_⟩
      rw [List.nil_append, stringBody.eq_def]
      exact .ok []
  | @plain c cs hquote hbackslash hcontrol hcs =>
      obtain ⟨meant, hmeant⟩ := ih cs.length (by simp [← hlength]) hcs rfl
      refine ⟨meant.map (c :: ·), fun rest => ?_⟩
      rw [List.cons_append, stringBody_plain hquote hbackslash hcontrol]
      exact (hmeant rest).prepend c
  | @short e cs he hcs =>
      have hescape : ∀ e ∈ ['"', '\\', '/', 'b', 'f', 'n', 'r', 't'],
          e ≠ 'u' ∧ (shortEscape? e).isSome = true :=
        List.all_iff_forall_prop.mp (by decide)
      obtain ⟨hu, hsome⟩ := hescape e he
      obtain ⟨c, hc⟩ := Option.isSome_iff_exists.mp hsome
      have hlt : cs.length < size := by
        rw [← hlength]
        simp only [List.length_cons]
        omega
      obtain ⟨meant, hmeant⟩ := ih cs.length hlt hcs rfl
      refine ⟨meant.map (c :: ·), fun rest => ?_⟩
      rw [List.cons_append, List.cons_append, stringBody_short hu hc]
      exact (hmeant rest).prepend c
  | @unicode a b c d cs hhex hcs =>
      rcases unicodeEscape_cases hhex hcs with ⟨x, left, hleft, hle, hread⟩ | herror
      · have hlt : left.length < size := by
          rw [← hlength]
          simp only [List.length_cons]
          omega
        obtain ⟨meant, hmeant⟩ := ih left.length hlt hleft rfl
        refine ⟨meant.map (x :: ·), fun rest => ?_⟩
        have hread : unicodeEscape (a :: b :: c :: d :: cs ++ '"' :: rest)
            = .ok (x, left ++ '"' :: rest) := hread rest
        rw [List.cons_append, List.cons_append, stringBody_unicode hread]
        exact (hmeant rest).prepend x
      · refine ⟨none, fun rest => ?_⟩
        obtain ⟨s, hs⟩ := herror rest
        have hs : unicodeEscape (a :: b :: c :: d :: cs ++ '"' :: rest) = .error s := hs
        rw [List.cons_append, List.cons_append, stringBody_unicode_error hs]
        exact .error s

/-- **STRINGS** are read alike up to the closing quote. -/
theorem exists_stringRest (h : IsStringBody cs) :
    ∃ meant, ∀ rest, ReadsAs rest (stringRest (cs ++ '"' :: rest)) meant := by
  obtain ⟨meant, hmeant⟩ := exists_stringBody h
  refine ⟨meant.map String.ofList, fun rest => ?_⟩
  have hread := hmeant rest
  rw [stringRest]
  generalize stringBody (cs ++ '"' :: rest) = r at hread
  cases hread with
  | ok xs => exact .ok _
  | error s => exact .error s

end Strings

/-! ## Scalars -/

section Scalars

variable {lexeme : List Char}

theorem IsWhole.head {whole : List Char} (h : IsWhole whole) :
    ∃ c cs, whole = c :: cs ∧ isAsciiDigit c = true := by
  cases h with
  | zero => exact ⟨'0', [], rfl, rfl⟩
  | @digits c ds _ hc _ => exact ⟨c, ds, rfl, hc⟩

/-- A value without parts starts with a character of its own. -/
theorem IsScalar.opens (h : IsScalar lexeme) : Opens lexeme := by
  cases h with
  | word hword =>
      simp only [jsonWords, List.mem_cons, List.not_mem_nil, or_false] at hword
      rcases hword with rfl | rfl | rfl
      · exact ⟨'n', _, rfl, rfl, by decide⟩
      · exact ⟨'t', _, rfl, rfl, by decide⟩
      · exact ⟨'f', _, rfl, rfl, by decide⟩
  | string => exact ⟨'"', _, rfl, rfl, by decide⟩
  | number hnumber =>
      obtain ⟨hsign, hwhole, -, -⟩ := hnumber
      obtain ⟨c, cs, rfl, hc⟩ := hwhole.head
      simp only [List.mem_cons, List.not_mem_nil, or_false] at hsign
      rcases hsign with rfl | rfl
      · exact ⟨c, _, rfl, isSpace_of_isAsciiDigit hc, ne_of_isAsciiDigit hc rfl⟩
      · exact ⟨'-', _, rfl, rfl, by decide⟩

variable {inner : Option (List Char → Read Json)} {space rest : List Char}

/-- A number is read as a value, whatever can be read inside values. -/
theorem exists_number (h : IsNumber lexeme) :
    ∃ meant, ∀ inner space rest, Blank space → Detached rest →
      ReadsAs rest (valueWith inner (space ++ (lexeme ++ rest))) meant := by
  obtain ⟨hsign, hwhole, hfraction, hexponent⟩ := h
  simp only [List.mem_cons, List.not_mem_nil, or_false] at hsign
  rcases hsign with rfl | rfl
  · obtain ⟨meant, hmeant⟩ := readsAlike_unsignedNumber false hwhole hfraction hexponent
    refine ⟨meant.map .number, fun inner space rest hspace hrest => ?_⟩
    have hread := hmeant rest hrest
    obtain ⟨c, cs, rfl, hc⟩ := hwhole.head
    rw [List.nil_append]
    simp only [List.cons_append] at hread ⊢
    rw [valueWith]
    rw [skipSpace_blank hspace (isSpace_of_isAsciiDigit hc)]
    -- a digit is none of the characters that are looked for before
    simp only [if_neg (ne_of_isAsciiDigit hc (show isAsciiDigit 'n' = false from rfl)),
      if_neg (ne_of_isAsciiDigit hc (show isAsciiDigit 't' = false from rfl)),
      if_neg (ne_of_isAsciiDigit hc (show isAsciiDigit 'f' = false from rfl)),
      if_neg (ne_of_isAsciiDigit hc (show isAsciiDigit '-' = false from rfl)), hc, if_true]
    generalize unsignedNumber false _ = r at hread
    cases hread with
    | ok n => exact .ok _
    | error s => exact .error s
  · obtain ⟨meant, hmeant⟩ := readsAlike_unsignedNumber true hwhole hfraction hexponent
    refine ⟨meant.map .number, fun inner space rest hspace hrest => ?_⟩
    have hread := hmeant rest hrest
    rw [List.singleton_append, List.cons_append, valueWith]
    rw [skipSpace_blank hspace rfl]
    simp only [Char.reduceEq, if_false, if_true]
    generalize unsignedNumber true _ = r at hread
    cases hread with
    | ok n => exact .ok _
    | error s => exact .error s

/-- A string is read as a value, whatever can be read inside values. -/
theorem exists_string {cs : List Char} (h : IsStringBody cs) :
    ∃ meant, ∀ inner space rest, Blank space →
      ReadsAs rest (valueWith inner (space ++ ('"' :: (cs ++ ['"']) ++ rest))) meant := by
  obtain ⟨meant, hmeant⟩ := exists_stringRest h
  refine ⟨meant.map .string, fun inner space rest hspace => ?_⟩
  have hread := hmeant rest
  rw [List.cons_append, List.append_assoc, List.singleton_append, valueWith]
  rw [skipSpace_blank hspace rfl]
  simp only [Char.reduceEq, if_false, if_true, show isAsciiDigit '"' = false from rfl,
    Bool.false_eq_true]
  generalize stringRest _ = r at hread
  cases hread with
  | ok t => exact .ok _
  | error s => exact .error s

/-- **SCALARS** are read alike, behind white space and in front of what does not continue them. -/
theorem exists_scalar (h : IsScalar lexeme) :
    ∃ meant, ∀ inner space rest, Blank space → Detached rest →
      ReadsAs rest (valueWith inner (space ++ (lexeme ++ rest))) meant := by
  cases h with
  | number hnumber => exact exists_number hnumber
  | string hbody =>
      obtain ⟨meant, hmeant⟩ := exists_string hbody
      exact ⟨meant, fun inner space rest hspace _ => hmeant inner space rest hspace⟩
  | word hword =>
      -- a word is what the value is written as
      have hwritten : ∀ j : Json, Readable 0 j → ∃ meant, ∀ inner space rest, Blank space →
          Detached rest → ReadsAs rest (valueWith inner (space ++ (write 0 j ++ rest))) meant := by
        intro j hj
        refine ⟨some j, fun inner space rest hspace hrest => ?_⟩
        rw [valueWith_scalar hspace hrest hj 0]
        exact .ok j
      simp only [jsonWords, List.mem_cons, List.not_mem_nil, or_false] at hword
      rcases hword with rfl | rfl | rfl
      · exact hwritten .null trivial
      · exact hwritten (.boolean true) trivial
      · exact hwritten (.boolean false) trivial

end Scalars

end Bindery.Json
