/-!
# Double precision numbers

A finite double is a sign, a mantissa below `2 ^ 53` and a binary exponent; its value is
`± mantissa * 2 ^ exponent`. The mantissa of a number that is not subnormal is at least
`2 ^ 52`, so a number has one form.

Arithmetic is done on exact fractions of natural numbers and rounded once, to the
nearest double and to the even mantissa on a tie (`Double.ofRatio?`). A result too large
for a double is `none`.
-/

namespace Bindery.Number

/-- A power of two. -/
def pow2 (k : Nat) : Nat := Nat.pow 2 k

/-- A power of ten. -/
def pow10 (k : Nat) : Nat := Nat.pow 10 k

/-- A finite double. -/
structure Double where
  negative : Bool
  mantissa : Nat
  exponent : Int
  deriving Repr, DecidableEq, Inhabited

/-- The least binary exponent. -/
def Double.minExponent : Int := -1074

/-- The greatest binary exponent. -/
def Double.maxExponent : Int := 971

/-- Positive zero. -/
def Double.zero : Double := ⟨false, 0, Double.minExponent⟩

/-- The double with the other sign. -/
def Double.neg (d : Double) : Double := { d with negative := !d.negative }

/-- Either zero. -/
def Double.isZero (d : Double) : Bool := d.mantissa == 0

/-- Whether the value is a whole number. -/
def Double.isWhole (d : Double) : Bool :=
  match d.exponent with
  | .ofNat _ => true
  | .negSucc k => d.mantissa % pow2 (k + 1) == 0

/-! ## Fractions -/

/-- A quotient rounded to the nearest natural number, a tie to the even one. -/
def roundQuotient (num den : Nat) : Nat :=
  let q := num / den
  let twice := 2 * (num % den)
  if twice < den then q
  else if den < twice then q + 1
  else if q % 2 = 0 then q else q + 1

/-- The fraction `num / den` times `2 ^ (-e)`, as numerator and denominator. -/
def scaleBy (num den : Nat) (e : Int) : Nat × Nat :=
  match e with
  | .ofNat k => (num, den * pow2 k)
  | .negSucc k => (num * pow2 (k + 1), den)

/-- The nearest double to `num / den`; `none` when that is too large. -/
def Double.ofRatio? (num den : Nat) : Option Double :=
  if num = 0 then some Double.zero
  else
    let spread : Int := (Nat.log2 num : Int) - (Nat.log2 den : Int)
    let start := max (spread - 53) Double.minExponent
    let (n, d) := scaleBy num den start
    let e := if n / d < pow2 53 then start else start + 1
    let (n, d) := scaleBy num den e
    let m := roundQuotient n d
    let (m, e) := if m = pow2 53 then (pow2 52, e + 1) else (m, e)
    if Double.maxExponent < e then none else some ⟨false, m, e⟩

/-- The size of a double as a fraction. -/
def Double.ratio (d : Double) : Nat × Nat :=
  match d.exponent with
  | .ofNat k => (d.mantissa * pow2 k, 1)
  | .negSucc k => (d.mantissa, pow2 (k + 1))

/-- The nearest double to a natural number. -/
def Double.ofNat? (n : Nat) : Option Double := Double.ofRatio? n 1

/-- The product of the sizes, rounded. -/
def Double.mul? (a b : Double) : Option Double :=
  Double.ofRatio? (a.ratio.1 * b.ratio.1) (a.ratio.2 * b.ratio.2)

/-- The quotient of the sizes, rounded. -/
def Double.div? (a b : Double) : Option Double :=
  Double.ofRatio? (a.ratio.1 * b.ratio.2) (a.ratio.2 * b.ratio.1)

/-! ## Decimals in steps

A decimal `digits * 10 ^ k` is read in two rounded steps: the digits become a double,
which is then multiplied or divided by the double nearest to the power of ten. Powers
beyond `10 ^ 308` are divided out in stages. -/

/-- The double nearest to a power of ten. -/
def Double.powerOfTen (k : Nat) : Double := (Double.ofNat? (pow10 k)).getD Double.zero

/-- The greatest power of ten that is a double. -/
def greatestPower : Nat := 308

/-- The double divided by `10 ^ k`, in stages of at most `10 ^ 308`. -/
def Double.scaleDown (d : Double) (k : Nat) : Double :=
  if _h : k ≤ greatestPower then (Double.div? d (Double.powerOfTen k)).getD Double.zero
  else if d.isZero then d
  else Double.scaleDown ((Double.div? d (Double.powerOfTen greatestPower)).getD Double.zero)
    (k - greatestPower)
termination_by k
decreasing_by simp only [greatestPower] at *; omega

/-- The double multiplied by `10 ^ k`; `none` when that is too large. -/
def Double.scaleUp? (d : Double) (k : Nat) : Option Double :=
  if k ≤ greatestPower then Double.mul? d (Double.powerOfTen k)
  else if d.isZero then some d
  else none

/-- The size of `digits * 10 ^ k` read in steps. -/
def Double.ofDecimal? (digits : Nat) (k : Int) : Option Double :=
  match Double.ofNat? digits with
  | none => none
  | some d =>
      match k with
      | .ofNat k => d.scaleUp? k
      | .negSucc k => some (d.scaleDown (k + 1))

end Bindery.Number
