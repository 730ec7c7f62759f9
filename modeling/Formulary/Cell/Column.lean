import Formulary.Cell.Error

/-!
# Column names

Columns are named by letters: `A` to `Z`, then `AA`, `AB` and so on. The names are
the numerals of a positional system in base 26 whose digits are 1 to 26; it has no
zero, so every positive number has exactly one name, and the empty name stands for
zero.

## Main definitions

* `Column.number` is the number of a name.
* `Column.letters` is the name of a number.
-/

namespace Formulary.Column

/-- The value of a letter as a digit: `A` is 1 and `Z` is 26. -/
def letterValue? (c : Char) : Option Nat :=
  if 'A' ≤ c ∧ c ≤ 'Z' then some (c.toNat - 'A'.toNat + 1) else none

/-- The letter whose value is one more than `n`, for `n` below 26. -/
def letter (n : Nat) : Char :=
  Char.ofNat ('A'.toNat + n)

/-- Continues the number `n` with one more letter on the right. -/
def extend (n : Nat) (c : Char) : Except CellError Nat :=
  match letterValue? c with
  | some value => .ok (n * 26 + value)
  | none => .error (.badLetter c)

/-- The number of a column name; the first character that is no letter makes it
fail. -/
def number (name : List Char) : Except CellError Nat :=
  name.foldlM extend 0

/-- The name of the column with a given number; zero has the empty name. -/
def letters (n : Nat) : List Char :=
  if n = 0 then [] else letters ((n - 1) / 26) ++ [letter ((n - 1) % 26)]
termination_by n
decreasing_by omega

@[simp] theorem letters_zero : letters 0 = [] := by
  rw [letters]
  rfl

/-- The name of a positive number ends in the letter of its lowest digit. -/
theorem letters_succ (n : Nat) :
    letters (n + 1) = letters (n / 26) ++ [letter (n % 26)] := by
  rw [letters]
  simp

/-- The name of the column with a given number, which must be positive. -/
def name (n : Int) : Except CellError String :=
  if n < 1 then .error (.columnNotPositive n) else .ok (String.ofList (letters n.toNat))

end Formulary.Column
