import Formulary.Assoc
import Formulary.Decimal.Notation
import Formulary.Text.Quoted

/-!
# JSON values

The values of a JSON document. Integers and floating-point numbers are kept apart,
because a document spells them differently and a formula shows the difference; the
fields of an object keep their order.

## Main definitions

* `Json` is the type of values.
* `Json.field?` is a field of an object.
* `Json.height` counts the levels of a value.
* `Json.isVoid` says which values count as absent.
* `Json.isShort` says which integers can be written, and `Json.isDescribable` asks it
  of every integer in a value.
* `Json.describe` and `Json.text` are two written forms of a value for messages and
  tables.
-/

namespace Formulary

/-- A JSON value. -/
inductive Json where
  | null
  | bool (b : Bool)
  | int (n : Int)
  | float (x : Binary64)
  | string (s : String)
  | array (items : List Json)
  | object (fields : List (String × Json))
  deriving Inhabited, Repr

namespace Json

/-! ### Objects -/

/-- The field `name` of an object; a value that is no object has no fields. -/
def field? (name : String) : Json → Option Json
  | .object fields => Assoc.lookup? name fields
  | _ => none

/-! ### Void values -/

/-- The values that count as absent: null, false, zero, and the empty string, list
and object. -/
def isVoid : Json → Bool
  | .null => true
  | .bool b => !b
  | .int n => n = 0
  | .float x => x.isZero
  | .string s => s.isEmpty
  | .array items => items.isEmpty
  | .object fields => fields.isEmpty

/-! ### Height -/

mutual

/-- The number of levels of a value: a scalar has one, and a list or an object one
more than its parts. -/
def height : Json → Nat
  | .array items => itemsHeight items + 1
  | .object fields => fieldsHeight fields + 1
  | _ => 1

/-- The largest height of some items. -/
def itemsHeight : List Json → Nat
  | [] => 0
  | item :: rest => max item.height (itemsHeight rest)

/-- The largest height of the values of some fields. -/
def fieldsHeight : List (String × Json) → Nat
  | [] => 0
  | (_, value) :: rest => max value.height (fieldsHeight rest)

end

/-! ### Long integers -/

/-- The largest number of digits of an integer that is read or written. -/
def maxDigits : Nat := 4300

/-- Whether an integer can be written: it has at most `maxDigits` digits. -/
def isShort (n : Int) : Bool :=
  (Nat.toDigits 10 n.natAbs).length ≤ maxDigits

/-- The first integer with more than `maxDigits` digits. -/
def firstLong : Nat := Nat.pow 10 maxDigits

/-- The integers that can be written are those below a power of ten. -/
theorem isShort_iff {n : Int} : isShort n = true ↔ n.natAbs < firstLong := by
  have hdigits (limit : Nat) (hlimit : 0 < limit) :
      (Nat.toDigits 10 n.natAbs).length ≤ limit ↔ n.natAbs < Nat.pow 10 limit :=
    Nat.length_toDigits_le_iff (by decide) hlimit
  unfold isShort firstLong
  rw [decide_eq_true_eq, hdigits maxDigits (by decide)]

mutual

/-- Whether a value can be described: all the integers in it can be written. -/
def isDescribable : Json → Bool
  | .int n => isShort n
  | .array items => itemsDescribable items
  | .object fields => fieldsDescribable fields
  | _ => true

/-- Whether all items of a list can be described. -/
def itemsDescribable : List Json → Bool
  | [] => true
  | item :: rest => item.isDescribable && itemsDescribable rest

/-- Whether the values of all fields can be described. -/
def fieldsDescribable : List (String × Json) → Bool
  | [] => true
  | (_, value) :: rest => value.isDescribable && fieldsDescribable rest

end

/-! ### Written forms -/

mutual

/-- The description of a value in a message: strings are quoted, and lists and
objects show their parts. It is asked for where `isDescribable` holds; the values of
a document are such values. -/
def describe : Json → String
  | .null => "None"
  | .bool b => if b then "True" else "False"
  | .int n => toString n
  | .float x => x.text
  | .string s => Text.quoted s
  | .array items => "[" ++ ", ".intercalate (describeItems items) ++ "]"
  | .object fields => "\x7b" ++ ", ".intercalate (describeFields fields) ++ "\x7d"

/-- The descriptions of the items of a list. -/
def describeItems : List Json → List String
  | [] => []
  | item :: rest => describe item :: describeItems rest

/-- The descriptions of the fields of an object. -/
def describeFields : List (String × Json) → List String
  | [] => []
  | (name, value) :: rest =>
      (Text.quoted name ++ ": " ++ describe value) :: describeFields rest

end

/-- The text of a value in a table: a string stands for itself, and any other value
for its description. -/
def text : Json → String
  | .string s => s
  | value => value.describe

end Json

end Formulary
