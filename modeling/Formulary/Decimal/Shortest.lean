import Formulary.Decimal.Binary64

/-!
# Shortest decimals

The decimal with the fewest significant digits that reads back as a given
floating-point number. Of two such decimals the nearer one is taken, and of two
equally near ones the one that ends in an even digit.

## Main definitions

* `Decimal` is a whole number of units of a power of ten.
* `Interval` holds the reals that round to a number.
* `shortest` is the shortest decimal of a positive number.

## Design notes

For a number of digits `n` the decimals of `n` digits form a grid, and only the two
grid points beside the number need to be looked at: if any grid point reads back, one
of these two does. The search tries `n = 1, 2, ...` and stops at the first hit;
seventeen digits always suffice.
-/

namespace Formulary

/-- The decimal `digits * 10 ^ exponent`. -/
structure Decimal where
  digits : Nat
  exponent : Int
  deriving DecidableEq, Repr

/-- The reals that round to one floating-point number, as multiples of `1 / den`:
those between `low` and `high`, the ends included when `closed` is true. The number
itself is `value / den`. -/
structure Interval where
  low : Nat
  value : Nat
  high : Nat
  den : Nat
  closed : Bool
  deriving DecidableEq, Repr

namespace Interval

/-- The reals that round to `m * 2 ^ q`. Below a power of two the next number is half
as far away, and the ends belong to the number whose significand is even. -/
def ofBinary (m : Nat) (q : Int) : Interval :=
  let below := if m = Nat.pow 2 (Binary64.precision - 1) ∧
    Binary64.minExponent < q then 1 else 2
  let up := if 2 ≤ q then Nat.pow 2 (q - 2).toNat else 1
  let den := if 2 ≤ q then 1 else Nat.pow 2 (2 - q).toNat
  { low := (4 * m - below) * up, value := 4 * m * up, high := (4 * m + 2) * up, den,
    closed := m % 2 = 0 }

/-- Whether `num / den` lies in the interval. -/
def contains (i : Interval) (num den : Nat) : Bool :=
  let x := num * i.den
  if i.closed then i.low * den ≤ x && x ≤ i.high * den else i.low * den <
    x && x < i.high * den

end Interval

namespace Decimal

/-- The value of a decimal as a numerator and a denominator. -/
def ratio (d : Decimal) : Nat × Nat :=
  if 0 ≤ d.exponent then (d.digits * Nat.pow 10 d.exponent.toNat, 1)
  else (d.digits, Nat.pow 10 (-d.exponent).toNat)

/-- The exponent `e` with `10 ^ e ≤ num / den < 10 ^ (e + 1)`, counted up from `e`
for at most `fuel` steps. -/
def decimalExponentFrom (num den : Nat) : (fuel : Nat) → (e : Int) → Int
  | 0, e => e
  | fuel + 1, e =>
    let p := ratio ⟨1, e + 1⟩
    if p.1 * den ≤ num * p.2 then decimalExponentFrom num den fuel (e + 1) else e

/-- The exponent `e` with `10 ^ e ≤ num / den < 10 ^ (e + 1)`, for a positive ratio.
The size in bits gives it up to a few units, from which it is counted up. -/
def decimalExponent (num den : Nat) : Int :=
  let bits : Int := (Nat.log2 num : Int) - (Nat.log2 den : Int)
  decimalExponentFrom num den 6 (bits * 30103 / 100000 - 2)

/-- The two decimals of unit `10 ^ e` beside the number, of which the one that reads
back is taken; of two that do, the nearer, and of two equally near, the one with even
digits. -/
def nearest? (i : Interval) (e : Int) : Option Decimal :=
  let unit := ratio ⟨1, e⟩
  let num := i.value * unit.2
  let den := i.den * unit.1
  let down : Decimal := ⟨num / den, e⟩
  let up : Decimal := ⟨num / den + 1, e⟩
  let downFits := i.contains down.ratio.1 down.ratio.2
  let upFits := i.contains up.ratio.1 up.ratio.2
  let twice := 2 * (num % den)
  if downFits && (!upFits || twice < den || (twice = den && down.digits % 2 = 0))
    then some down
  else if upFits then some up
  else none

/-- The shortest decimal in the interval whose unit is `10 ^ e` or one of the `fuel`
smaller powers. -/
def searchFrom (i : Interval) : (fuel : Nat) → (e : Int) → Decimal
  | 0, e => ⟨i.value * (ratio ⟨1, e⟩).2 / (i.den * (ratio ⟨1, e⟩).1), e⟩
  | fuel + 1, e => (nearest? i e).getD (searchFrom i fuel (e - 1))

end Decimal

/-- The shortest decimal that reads back as the positive number `m * 2 ^ q`. -/
def shortest (m : Nat) (q : Int) : Decimal :=
  let i := Interval.ofBinary m q
  Decimal.searchFrom i 17 (Decimal.decimalExponent i.value i.den)

end Formulary
