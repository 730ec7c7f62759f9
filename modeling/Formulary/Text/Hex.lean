/-!
# Hexadecimal escapes

Code points written with a fixed number of lower-case hexadecimal digits.

## Main definitions

* `hexPadded` writes a number in base sixteen with at least a given number of digits.
* `hexValue?` is the value of one hexadecimal digit of either case.
-/

namespace Formulary.Text

/-- The lower-case hexadecimal digits of `n`, filled up with zeros on the left to
`width` digits. -/
def hexPadded (width n : Nat) : List Char :=
  let digits := Nat.toDigits 16 n
  List.replicate (width - digits.length) '0' ++ digits

/-- The value of a hexadecimal digit. -/
def hexValue? (c : Char) : Option Nat :=
  if '0' ≤ c ∧ c ≤ '9' then some (c.toNat - '0'.toNat)
  else if 'a' ≤ c ∧ c ≤ 'f' then some (c.toNat - 'a'.toNat + 10)
  else if 'A' ≤ c ∧ c ≤ 'F' then some (c.toNat - 'A'.toNat + 10)
  else none

end Formulary.Text
