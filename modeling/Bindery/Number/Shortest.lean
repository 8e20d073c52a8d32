import Bindery.Number.Double

/-!
# Shortest decimals

The decimal shown for a double is the one with the fewest digits among those that read
back as the double, and the nearest of these. A decimal reads back when it lies between
the midpoints to the neighbouring doubles, the midpoints themselves included exactly
when the mantissa is even.

The search goes through 1, 2, …, 17 digits. On the grid with that many digits only the
two grid points around the value can qualify. All arithmetic is exact, on natural
numbers over a common denominator.

`DecimalLayout` holds what is a matter of form and not of value: where the positional
form ends on either side.
-/

namespace Bindery.Number

/-- A decimal `digits * 10 ^ scale`. -/
structure Decimal where
  digits : Nat
  scale : Int
  deriving Repr, DecidableEq, Inhabited

/-- The numbers that read back as a double, over a common denominator: the double
itself, the ends of the interval, and whether the ends belong to it. -/
structure ReadingInterval where
  value : Nat
  low : Nat
  high : Nat
  denominator : Nat
  closed : Bool
  deriving Repr, DecidableEq

/-- The interval of a double that is not zero. Below a power of two the neighbour is
only half as far away. -/
def Double.interval (d : Double) : ReadingInterval :=
  let (num, den) := d.ratio
  let unit := num / d.mantissa
  let narrow := d.mantissa == pow2 52 && decide (Double.minExponent < d.exponent)
  { value := 4 * num
    low := 4 * num - (if narrow then unit else 2 * unit)
    high := 4 * num + 2 * unit
    denominator := 4 * den
    closed := d.mantissa % 2 == 0 }

/-- Whether the fraction `num / den` lies in the interval. -/
def ReadingInterval.has (r : ReadingInterval) (num den : Nat) : Bool :=
  if r.closed then
    decide (r.low * den ≤ num * r.denominator) && decide (num * r.denominator ≤ r.high * den)
  else
    decide (r.low * den < num * r.denominator) && decide (num * r.denominator < r.high * den)

/-- A decimal as a fraction. -/
def Decimal.ratio (x : Decimal) : Nat × Nat :=
  match x.scale with
  | .ofNat k => (x.digits * pow10 k, 1)
  | .negSucc k => (x.digits, pow10 (k + 1))

/-- The place of the leading digit: the greatest `k` with `10 ^ k ≤ num / den`. -/
def leadingPlace (num den : Nat) : Int :=
  if den ≤ num then (Nat.toDigits 10 (num / den)).length - 1
  else
    match (List.range 400).find? fun j => decide (den ≤ num * pow10 (j + 1)) with
    | some j => -((j : Int) + 1)
    | none => 0

/-- How far a decimal is from the value, as a numerator over `den * denominator`. -/
def ReadingInterval.distance (r : ReadingInterval) (num den : Nat) : Nat :=
  let a := num * r.denominator
  let b := r.value * den
  (a - b) + (b - a)

/-- The better of the two points of the grid `10 ^ scale` around the value, if one of
them reads back. -/
def ReadingInterval.onGrid? (r : ReadingInterval) (scale : Int) : Option Decimal :=
  let below : Nat := match scale with
    | .ofNat k => r.value / (r.denominator * pow10 k)
    | .negSucc k => r.value * pow10 (k + 1) / r.denominator
  let candidates := [Decimal.mk below scale, Decimal.mk (below + 1) scale].filter fun x =>
    r.has x.ratio.1 x.ratio.2
  match candidates with
  | [] => none
  | [x] => some x
  | x :: y :: _ =>
      let dx := r.distance x.ratio.1 x.ratio.2
      let dy := r.distance y.ratio.1 y.ratio.2
      if dx < dy then some x
      else if dy < dx then some y
      else if x.digits % 2 = 0 then some x else some y

/-- The shortest decimal that reads back as the size of a double. -/
def Double.shortest (d : Double) : Decimal :=
  if d.isZero then ⟨0, 0⟩
  else
    let r := d.interval
    let place := leadingPlace r.value r.denominator
    ((List.range 17).findSome? fun n : Nat => r.onGrid? (place - n)).getD ⟨0, 0⟩

/-! ## Layout -/

/-- The form in which decimals are written. -/
structure DecimalLayout where
  /-- The least place of a leading digit that is written without an exponent. -/
  lowest : Int
  /-- The greatest place of a leading digit that is written without an exponent. -/
  highest : Int
  deriving Repr

/-- Digits without the zeros at the end. -/
def significant (digits : List Char) : List Char :=
  (digits.reverse.dropWhile (· == '0')).reverse

/-- The text of a decimal. The positional form always has a point; the exponent always
has a sign and no zero in front. -/
def DecimalLayout.write (f : DecimalLayout) (x : Decimal) : List Char :=
  if x.digits = 0 then ['0', '.', '0']
  else
    let all := Nat.toDigits 10 x.digits
    let place : Int := x.scale + all.length - 1
    let ds := significant all
    if f.lowest ≤ place ∧ place ≤ f.highest then
      match place with
      | .negSucc k => '0' :: '.' :: List.replicate k '0' ++ ds
      | .ofNat k =>
          let whole := ds.take (k + 1) ++ List.replicate (k + 1 - ds.length) '0'
          let rest := ds.drop (k + 1)
          whole ++ '.' :: (if rest.isEmpty then ['0'] else rest)
    else
      let head := match ds with
        | [] => []
        | [d] => [d]
        | d :: rest => d :: '.' :: rest
      head ++ 'e' :: (if place < 0 then '-' else '+')
        :: Nat.toDigits 10 place.natAbs

/-- The text of a double. -/
def DecimalLayout.writeDouble (f : DecimalLayout) (d : Double) : List Char :=
  (if d.negative then ['-'] else []) ++ f.write d.shortest

end Bindery.Number
