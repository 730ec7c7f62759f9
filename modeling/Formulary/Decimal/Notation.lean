import Formulary.Decimal.Shortest

/-!
# The text of a floating-point number

A finite number is written with the fewest digits that read back. Numbers from `10 ^
-4` up to `10 ^ 16` are written positionally and always with a point; the others have
one digit before the point and an exponent with a sign and at least two digits.

## Main definitions

* `NumberFormat` collects the choices of the layout, and `numberFormat` is the one in
  use.
* `Binary64.text` is the text of a number.
-/

namespace Formulary

/-- The choices in laying out a decimal: the decimal exponents written positionally,
from `low` on and below `high`, and the least number of digits of a written
exponent. -/
structure NumberFormat where
  low : Int
  high : Int
  exponentDigits : Nat

/-- Decimal exponents from -4 to 15 are positional, and an exponent has at least two
digits. -/
def numberFormat : NumberFormat := ⟨-4, 16, 2⟩

namespace NumberFormat

/-- The digits of `n`, filled up with zeros on the left to `width` digits. -/
def padded (width n : Nat) : List Char :=
  let digits := Nat.toDigits 10 n
  List.replicate (width - digits.length) '0' ++ digits

/-- A decimal written with a point: `digits` are its significant digits and the first
of them has the place value `10 ^ e`. -/
def positional (digits : List Char) (e : Int) : List Char :=
  if e < 0 then '0' :: '.' :: (List.replicate (-e - 1).toNat '0' ++ digits)
  else
    let whole := digits.take (e.toNat + 1)
    let fraction := digits.drop (e.toNat + 1)
    whole ++ List.replicate (e.toNat + 1 - digits.length) '0' ++
      '.' :: (if fraction.isEmpty then ['0'] else fraction)

/-- A decimal written with an exponent. -/
def scientific (f : NumberFormat) (digits : List Char) (e : Int) : List Char :=
  let fraction := digits.drop 1
  digits.take 1 ++ (if fraction.isEmpty then [] else '.' :: fraction) ++
    'e' :: (if e < 0 then '-' else '+') :: padded f.exponentDigits e.natAbs

/-- The text of a positive decimal. Zeros at the end of its digits are not written as
digits. -/
def layout (f : NumberFormat) (d : Decimal) : List Char :=
  let all := Nat.toDigits 10 d.digits
  let e := d.exponent + (all.length - 1 : Nat)
  let digits := (all.reverse.dropWhile (· = '0')).reverse
  if f.low ≤ e ∧ e < f.high then positional digits e else f.scientific digits e

end NumberFormat

/-- The text of a floating-point number. -/
def Binary64.text : Binary64 → String
  | .finite negative m q =>
    let magnitude := if m =
      0 then ['0', '.', '0'] else numberFormat.layout (shortest m q)
    String.ofList (if negative then '-' :: magnitude else magnitude)
  | .infinity negative => if negative then "-inf" else "inf"
  | .nan => "nan"

end Formulary
