import Formulary.Schema.Issue
import Formulary.Text.Digit

/-!
# Written integers

An integer in data may be written as a text. The plain spelling is an optional minus
sign and digits that do not start with a superfluous zero. A looser spelling is
tidied first: blanks around it, a plus sign, zeros in front, a point with zeros
behind it and single underscores are all taken away.

## Main definitions

* `readPlain` reads the plain spelling.
* `tidied?` turns a looser spelling into the plain one.
* `readWritten` reads a text.

## Design notes

The zeros in front may have underscores among them, as many as there are, and may
stand in front of a minus sign. A point needs at least one zero behind it. Only a
text that is plain from the start is told to be too long.
-/

namespace Formulary.Schema

/-! ### The plain spelling -/

/-- The largest number of characters of a plain spelling, its sign included. -/
def maxIntegerLength : Nat := 4300

/-- Reads digits that follow `signs` characters of sign. Digits that are too many are
told before anything that follows them is looked at. -/
def readDigits (signs : Nat) (cs : List Char) : Checked Nat :=
  let digits := cs.takeWhile Char.isDigit
  if digits.head? = some '0' then
    if cs.length = 1 then .ok 0 else Checked.issue .unreadableInteger
  else if maxIntegerLength < signs + digits.length then Checked.issue .tooLarge
  else if digits.isEmpty || digits.length <
    cs.length then Checked.issue .unreadableInteger
  else .ok (Text.digitsValue digits)

/-- Reads the plain spelling of an integer. -/
def readPlain : List Char → Checked Int
  | '-' :: cs => (readDigits 1 cs).map fun n => -(n : Int)
  | cs => (readDigits 0 cs).map fun n => (n : Int)

/-! ### Looser spellings -/

/-- The characters that may surround a written integer. -/
def isSurrounding (c : Char) : Bool :=
  let n := c.toNat
  (0x09 ≤ n && n ≤ 0x0D) || n == 0x20 || n == 0x85 || n == 0xA0 || n == 0x1680 ||
    (0x2000 ≤ n && n ≤ 0x200A) || n == 0x2028 || n == 0x2029 ||
      n == 0x202F || n == 0x205F ||
    n == 0x3000

/-- The characters between those that surround them. -/
def withoutSurroundings (cs : List Char) : List Char :=
  ((cs.dropWhile isSurrounding).reverse.dropWhile isSurrounding).reverse

/-- Whether a character is a digit other than zero. -/
def isLeadingDigit (c : Char) : Bool :=
  c.isDigit && c ≠ '0'

/-- What is left behind zeros and underscores, of which `last` is the last one so
far. It is kept if nothing but a fraction follows. -/
def afterZeros? (last : Char) : List Char → Option (List Char)
  | [] => some [last]
  | c :: rest =>
    if c = '0' ∨ c = '_' then afterZeros? c rest
    else if c = '.' then some (last :: c :: rest)
    else if isLeadingDigit c ∨ c = '-' then some (c :: rest)
    else none

/-- The characters without the zeros in front; they must start with a digit. -/
def withoutZeros? : List Char → Option (List Char)
  | '0' :: rest => afterZeros? '0' rest
  | c :: rest => if isLeadingDigit c then some (c :: rest) else none
  | [] => none

/-- The characters in front of a point, which must have zeros behind it and nothing
else. -/
def withoutFraction? (cs : List Char) : Option (List Char) :=
  match cs.dropWhile (· ≠ '.') with
  | [] => some cs
  | _ :: zeros =>
    if !zeros.isEmpty &&
      zeros.all (· = '0') then some (cs.takeWhile (· ≠ '.')) else none

/-- Whether no two underscores stand side by side, and none at the end. -/
def underscoresAreSingle : List Char → Bool
  | [] => true
  | '_' :: rest => rest.head?.any (· ≠ '_') && underscoresAreSingle rest
  | _ :: rest => underscoresAreSingle rest

/-- The characters without underscores, which must be single and stand inside. -/
def withoutUnderscores? (cs : List Char) : Option (List Char) :=
  if cs.head? ≠ some '_' &&
    underscoresAreSingle cs then some (cs.filter (· ≠ '_')) else none

/-- The number behind the sign without zeros in front, a fraction and underscores. -/
def tidiedNumber? (cs : List Char) : Option (List Char) := do
  withoutUnderscores? (← withoutFraction? (← withoutZeros? cs))

/-- The plain spelling that a looser one stands for. -/
def tidied? (cs : List Char) : Option (List Char) :=
  match withoutSurroundings cs with
  | '-' :: number => (tidiedNumber? number).map ('-' :: ·)
  | '+' :: number => tidiedNumber? number
  | number => tidiedNumber? number

/-- Reads an integer from a text. -/
def readWritten (s : String) : Checked Int :=
  match readPlain s.toList with
  | .ok n => .ok n
  | .error [⟨.tooLarge, path⟩] => .error [⟨.tooLarge, path⟩]
  | .error _ =>
    match (tidied? s.toList).map readPlain with
    | some (.ok n) => .ok n
    | _ => Checked.issue .unreadableInteger

end Formulary.Schema
