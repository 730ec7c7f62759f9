import Formulary.Json.Basic
import Formulary.Schema.Integer
import Formulary.Schema.Issue

/-!
# Reading fields from data

Readers for the kinds of data that fields hold. They are lenient where a value is
meant in another spelling: an integer may be a whole number with a fraction, a truth
value or a text of digits, and a truth value may be one of a few words.

## Main definitions

* `readString`, `readInt`, `readBool`, `readList` and `readNullable` read a piece of
  data.
* `requiredField` and `fieldOr` read a field of an object.
* `refuseOthers` finds the fields that should not be there.
-/

namespace Formulary.Schema

variable {α : Type}

/-! ### Pieces of data -/

/-- Reads a string. -/
def readString : Json → Checked String
  | .string s => .ok s
  | _ => Checked.issue .notString

/-- The number of signed machine words of 64 bits that are not negative. -/
def wordBound : Int := 9223372036854775808

/-- Reads an integer from a number with a fraction: it must be whole and a machine
word, of which the least one does not count. -/
def readWhole (x : Binary64) : Checked Int :=
  match x, x.toInt? with
  | .finite _ _ _, some n =>
    if -wordBound < n ∧ n < wordBound then .ok n
    else Checked.issue .tooLarge
  | .finite _ _ _, none => Checked.issue .fractional
  | _, _ => Checked.issue .notFinite

/-- Reads an integer. -/
def readInt : Json → Checked Int
  | .int n => .ok n
  | .bool b => .ok (if b then 1 else 0)
  | .float x => readWhole x
  | .string s => readWritten s
  | _ => Checked.issue .notInteger

/-- The words for truth, in lower case. -/
def trueWords : List String := ["1", "t", "y", "on", "yes", "true"]

/-- The words for falsehood, in lower case. -/
def falseWords : List String := ["0", "f", "n", "no", "off", "false"]

/-- The truth value that an integer stands for. -/
def boolOfInt (n : Int) : Checked Bool :=
  if n = 0 then .ok false
  else if n = 1 then .ok true
  else Checked.issue .unreadableBoolean

/-- Reads a truth value. -/
def readBool : Json → Checked Bool
  | .bool b => .ok b
  | .int n =>
    if -wordBound ≤ n ∧ n < wordBound then boolOfInt n else Checked.issue .notBoolean
  | .float x =>
    match readWhole x with
    | .ok n => boolOfInt n
    | .error _ => Checked.issue .notBoolean
  | .string s =>
    let word := s.map Char.toLower
    if trueWords.contains word then .ok true
    else if falseWords.contains word then .ok false
    else Checked.issue .unreadableBoolean
  | _ => Checked.issue .notBoolean

/-- Reads items one by one, the first of which has the number `i`. -/
def readItems (read : Json → Checked α) (i : Nat) : List Json → List (Checked α)
  | [] => []
  | item :: rest => (read item).under (.index i) :: readItems read (i + 1) rest

/-- Reads a list. -/
def readList (read : Json → Checked α) : Json → Checked (List α)
  | .array items => Checked.all (readItems read 0 items)
  | _ => Checked.issue .notList

/-- Reads a value that may be null. -/
def readNullable (read : Json → Checked α) : Json → Checked (Option α)
  | .null => .ok none
  | value => (read value).map some

/-- Reads a word that names one of some values. -/
def readAmong (choices : List (String × α)) (allowed : String) : Json → Checked α
  | .string s =>
    match Assoc.lookup? s choices with
    | some value => .ok value
    | none => Checked.issue (.notAmong allowed)
  | _ => Checked.issue (.notAmong allowed)

/-! ### Fields -/

/-- Reads a field that must be there. -/
def requiredField (name : String) (read : Json → Checked α)
    (fields : List (String × Json)) :
    Checked α :=
  match Assoc.lookup? name fields with
  | some value => (read value).under (.field name)
  | none => (Checked.issue .missing : Checked α).under (.field name)

/-- Reads a field that has a value of its own if it is not there. -/
def fieldOr (default : α) (name : String) (read : Json → Checked α)
    (fields : List (String × Json)) : Checked α :=
  match Assoc.lookup? name fields with
  | some value => (read value).under (.field name)
  | none => .ok default

/-- Refuses the fields whose names are not among those known. -/
def refuseOthers (known : List String) (fields : List (String × Json)) : Checked Unit :=
  let others := fields.filter (!known.contains ·.1)
  if others.isEmpty then .ok ()
  else .error (others.map fun f => ⟨.unexpected, [.field f.1]⟩)

end Formulary.Schema
