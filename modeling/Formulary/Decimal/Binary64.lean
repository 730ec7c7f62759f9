/-!
# Binary floating-point numbers of 64 bits

A finite number of the format is `m * 2 ^ q` with a significand `m` below `2 ^ 53`
and an exponent `q` of at least `-1074`; beside these there are two infinities and
the not-a-number. Everything here is exact arithmetic on natural numbers.

## Main definitions

* `Binary64` is the type of these numbers.
* `Binary64.ofDecimal` is the number nearest to a decimal, a tie going to the even
  significand.

## Design notes

A positive rational is given by a numerator and a denominator. `binaryExponent` finds
the exponent of its leading bit by comparing sizes, so no logarithm is needed, and
`Binary64.ofRatio` then divides once and rounds the quotient.
-/

namespace Formulary

/-- A floating-point number with a significand of 53 bits and an exponent range of
eleven bits. -/
inductive Binary64 where
  /-- The number `± m * 2 ^ q`. -/
  | finite (negative : Bool) (m : Nat) (q : Int)
  /-- One of the two infinities. -/
  | infinity (negative : Bool)
  /-- Not a number. -/
  | nan
  deriving DecidableEq, Repr

namespace Binary64

/-- The number of bits of a significand. -/
def precision : Nat := 53

/-- The smallest exponent of a finite number. -/
def minExponent : Int := -1074

/-- The largest exponent of a finite number. -/
def maxExponent : Int := 971

/-- A numerator and a denominator for `num / den * 2 ^ e`. -/
def scale (num den : Nat) (e : Int) : Nat × Nat :=
  if 0 ≤ e then (num * Nat.pow 2 e.toNat, den) else (num, den * Nat.pow 2 (-e).toNat)

/-- The quotient rounded to the nearest whole number, a tie going to the even one. -/
def roundDiv (num den : Nat) : Nat :=
  let quotient := num / den
  let twice := 2 * (num % den)
  if twice < den then quotient
  else if den < twice then quotient + 1
  else if quotient % 2 = 0 then quotient
  else quotient + 1

/-- The exponent `e` with `2 ^ e ≤ num / den < 2 ^ (e + 1)`, for positive `num` and
`den`. -/
def binaryExponent (num den : Nat) : Int :=
  let e : Int := (Nat.log2 num : Int) - (Nat.log2 den : Int)
  let s := scale num den (-e)
  if s.1 < s.2 then e - 1 else e

/-- The number nearest to `± num / den`, for a positive `den`; a tie goes to the even
significand, and a magnitude beyond the largest finite number becomes an infinity. -/
def ofRatio (negative : Bool) (num den : Nat) : Binary64 :=
  if num = 0 then .finite negative 0 minExponent
  else
    let q := max minExponent (binaryExponent num den - (precision - 1 : Nat))
    let s := scale num den (-q)
    let m := roundDiv s.1 s.2
    let m' := if m = Nat.pow 2 precision then Nat.pow 2 (precision - 1) else m
    let q' := if m = Nat.pow 2 precision then q + 1 else q
    if maxExponent < q' then .infinity negative else .finite negative m' q'

/-- The number nearest to the decimal `± digits * 10 ^ exponent`. A decimal of more
than 310 digits before the point is infinite, and one that starts more than 400
places after it is zero; those are decided without computing the power. -/
def ofDecimal (negative : Bool) (digits : Nat) (exponent : Int) : Binary64 :=
  let magnitude := ((Nat.log2 digits : Int) * 30103) / 100000 + exponent
  if digits = 0 then .finite negative 0 minExponent
  else if 310 < magnitude then .infinity negative
  else if magnitude < -400 then .finite negative 0 minExponent
  else if 0 ≤ exponent then ofRatio negative (digits * Nat.pow 10 exponent.toNat) 1
  else ofRatio negative digits (Nat.pow 10 (-exponent).toNat)

/-- Whether the number is a zero of either sign. -/
def isZero : Binary64 → Bool
  | .finite _ m _ => m = 0
  | _ => false

/-- The integer that the number equals, if it is whole. -/
def toInt? : Binary64 → Option Int
  | .finite negative m q =>
    let sign : Int := if negative then -1 else 1
    if 0 ≤ q then some (sign * (m * Nat.pow 2 q.toNat : Nat))
    else if m % Nat.pow 2 (-q).toNat =
      0 then some (sign * (m / Nat.pow 2 (-q).toNat : Nat))
    else none
  | _ => none

end Binary64

end Formulary
