import Formulary.Json.Basic
import Formulary.Text.Digit

/-!
# Reading JSON documents

A reader that turns the text of a document into a value, or says what is wrong and
where. Beside the standard's forms it takes `NaN`, `Infinity` and `-Infinity` as
numbers. Of two fields of one name the later value wins, at the place of the earlier.

## Main definitions

* `Json.Problem` is what can be wrong with a document, and `Json.ReadError` adds the
  place.
* `Json.read` reads a document.

## Design notes

Half a surrogate pair that stands by itself is no character, though a document can
spell it. The reader is told which characters stand for such halves (`half`), so they
are kept apart from each other, and from every character of a document that has none
of these.

The reader works on the list of characters that are left. A place in the text is
named by the number of characters from it to the end, which every step knows without
counting from the front; `read` turns it into an offset, a line and a column. `value`
recurses on a number of steps which `read` takes from the length of the text.
-/

namespace Formulary.Json

/-- What can be wrong with a document. -/
inductive Problem where
  | expectingValue
  | expectingComma
  | expectingColon
  | expectingName
  | extraData
  | unterminatedString
  | controlCharacter
  | badEscape
  | badUnicodeEscape
  | byteOrderMark
  deriving DecidableEq, Repr

/-- The wording of a problem. -/
def Problem.message : Problem → String
  | .expectingValue => "Expecting value"
  | .expectingComma => "Expecting ',' delimiter"
  | .expectingColon => "Expecting ':' delimiter"
  | .expectingName => "Expecting property name enclosed in double quotes"
  | .extraData => "Extra data"
  | .unterminatedString => "Unterminated string starting at"
  | .controlCharacter => "Invalid control character at"
  | .badEscape => "Invalid \\escape"
  | .badUnicodeEscape => "Invalid \\uXXXX escape"
  | .byteOrderMark => "Unexpected UTF-8 BOM (decode using utf-8-sig)"

/-- Why a document cannot be read: a problem at a place, or an integer with too many
digits. -/
inductive ReadError where
  | malformed (problem : Problem) (line column offset : Nat)
  | tooManyDigits (count : Nat)
  deriving DecidableEq, Repr

/-- The wording of a failure to read. -/
def ReadError.message : ReadError → String
  | .malformed problem line column offset =>
    problem.message ++ ": line " ++ toString line ++ " column " ++ toString column ++
      " (char " ++ toString offset ++ ")"
  | .tooManyDigits count =>
    "Exceeds the limit (" ++ toString maxDigits ++
      " digits) for integer string conversion: value has " ++ toString count ++
      " digits; use sys.set_int_max_str_digits() to increase the limit"

/-- A failure during reading: a problem at the place with `left` characters to the
end. -/
inductive Fault where
  | found (problem : Problem) (left : Nat)
  | tooManyDigits (count : Nat)
  deriving DecidableEq, Repr

/-- The failure with `problem` at the first of the characters `rest`. -/
def failAt {α : Type} (problem : Problem) (rest : List Char) : Except Fault α :=
  .error (.found problem rest.length)

/-! ### Spaces and words -/

/-- The characters between the parts of a document. -/
def isSpace (c : Char) : Bool :=
  c = ' ' || c = '\t' || c = '\n' || c = '\r'

/-- The text from its first character that is no space. -/
def skipSpace (cs : List Char) : List Char :=
  cs.dropWhile isSpace

/-- What follows `word` in the text, if the text starts with it. -/
def afterWord? (word : String) (cs : List Char) : Option (List Char) :=
  if word.toList.isPrefixOf cs then some (cs.drop word.length) else none

/-! ### Strings -/

section

variable (half : Nat → Char)

/-- The character that `\` and a letter stand for. -/
def shortEscape? : Char → Option Char
  | '"' => some '"'
  | '\\' => some '\\'
  | '/' => some '/'
  | 'b' => some '\x08'
  | 'f' => some '\x0c'
  | 'n' => some '\n'
  | 'r' => some '\r'
  | 't' => some '\t'
  | _ => none

/-- The number that four hexadecimal digits write. -/
def codeUnit? (a b c d : Char) : Option Nat := do
  let a ← Text.hexValue? a
  let b ← Text.hexValue? b
  let c ← Text.hexValue? c
  let d ← Text.hexValue? d
  return ((a * 16 + b) * 16 + c) * 16 + d

/-- The first halves of surrogate pairs. -/
def isHighSurrogate (n : Nat) : Bool := 0xD800 ≤ n && n ≤ 0xDBFF

/-- The second halves of surrogate pairs. -/
def isLowSurrogate (n : Nat) : Bool := 0xDC00 ≤ n && n ≤ 0xDFFF

/-- The character of a code unit, or the one that stands for half a surrogate
pair. -/
def unitChar (n : Nat) : Char :=
  if isHighSurrogate n || isLowSurrogate n then half n else Char.ofNat n

/-- The character of a surrogate pair. -/
def pairChar (high low : Nat) : Char :=
  Char.ofNat (0x10000 + (high - 0xD800) * 0x400 + (low - 0xDC00))

/-- Puts a character in front of the string that was read. -/
def consChar (c : Char) :
    Except Fault (List Char × List Char) → Except Fault (List Char × List Char)
  | .ok (cs, rest) => .ok (c :: cs, rest)
  | .error fault => .error fault

/-- What a first half of a surrogate pair meets: nothing that could complete it, a
malformed escape, or the second half. -/
inductive Pairing where
  | alone
  | malformed (left : Nat)
  | partner (low : Nat)

/-- Looks for the second half of a surrogate pair, a unicode escape that does not end
the text. -/
def pairing : List Char → Pairing
  | '\\' :: 'u' :: a :: b :: c :: d :: _ :: rest =>
    match codeUnit? a b c d with
    | none => .malformed (rest.length + 6)
    | some low => if isLowSurrogate low then .partner low else .alone
  | _ => .alone

/-- The rest of a string whose opening quote was read; the place with `start`
characters to the end is the place of that quote. A unicode escape must not end the
text. -/
def stringTail (start : Nat) : List Char → Except Fault (List Char × List Char)
  | [] => .error (.found .unterminatedString start)
  | ['\\'] => .error (.found .unterminatedString start)
  | '\\' :: 'u' :: a :: b :: c :: d :: rest =>
    match codeUnit? a b c d, rest.isEmpty with
    | some high, false =>
      if isHighSurrogate high then
        match pairing rest with
        | .alone => consChar (unitChar half high) (stringTail start rest)
        | .malformed left => .error (.found .badUnicodeEscape left)
        | .partner low =>
          match rest with
          | _ :: _ :: _ :: _ :: _ :: _ :: more =>
              consChar (pairChar high low) (stringTail start more)
          | _ => .error (.found .unterminatedString start)
      else
        consChar (unitChar half high) (stringTail start rest)
    | _, _ => .error (.found .badUnicodeEscape (rest.length + 5))
  | '\\' :: c :: rest =>
    if c = 'u' then .error (.found .badUnicodeEscape (rest.length + 1))
    else
      match shortEscape? c with
      | some d => consChar d (stringTail start rest)
      | none => .error (.found .badEscape (rest.length + 2))
  | c :: rest =>
    if c = '"' then .ok ([], rest)
    else if c.toNat < 0x20 then .error (.found .controlCharacter (rest.length + 1))
    else consChar c (stringTail start rest)

/-! ### Numbers -/

/-- A number as it is spelled. -/
structure Numeral where
  negative : Bool
  whole : List Char
  fraction : List Char
  exponent : Option (Bool × List Char)
  deriving Repr

namespace Numeral

/-- Whether the spelling is that of an integer. -/
def isInteger (n : Numeral) : Bool :=
  n.fraction.isEmpty && n.exponent.isNone

/-- The decimal exponent that the spelling gives. -/
def exponentValue (n : Numeral) : Int :=
  match n.exponent with
  | none => 0
  | some (negative, digits) =>
    if negative then -(Text.digitsValue digits : Int) else Text.digitsValue digits

/-- The value of a numeral. -/
def value (n : Numeral) : Except Fault Json :=
  if n.isInteger then
    if maxDigits < n.whole.length then .error (.tooManyDigits n.whole.length)
    else
      let magnitude : Int := Text.digitsValue n.whole
      .ok (.int (if n.negative then -magnitude else magnitude))
  else
    .ok (.float (Binary64.ofDecimal n.negative
      (Text.digitsValue (n.whole ++ n.fraction))
      (n.exponentValue - n.fraction.length)))

end Numeral

/-- The sign of a numeral and what follows it. -/
def readSign : List Char → Bool × List Char
  | '-' :: rest => (true, rest)
  | cs => (false, cs)

/-- The whole part of a numeral: a zero, or digits that do not start with one. -/
def readWhole : List Char → List Char × List Char
  | '0' :: rest => (['0'], rest)
  | cs => (cs.takeWhile Char.isDigit, cs.dropWhile Char.isDigit)

/-- The fraction of a numeral: a point and at least one digit, else nothing. -/
def readFraction : List Char → List Char × List Char
  | '.' :: rest =>
    if (rest.takeWhile Char.isDigit).isEmpty then ([], '.' :: rest)
    else (rest.takeWhile Char.isDigit, rest.dropWhile Char.isDigit)
  | cs => ([], cs)

/-- The digits of an exponent after its sign, if there are any. -/
def exponentDigits? (negative : Bool) (cs : List Char) :
    Option ((Bool × List Char) × List Char) :=
  if (cs.takeWhile Char.isDigit).isEmpty then none
  else some ((negative, cs.takeWhile Char.isDigit), cs.dropWhile Char.isDigit)

/-- The exponent of a numeral: a mark, a sign or none, and at least one digit, else
nothing. -/
def readExponent (cs : List Char) : Option (Bool × List Char) × List Char :=
  let found :=
    match cs with
    | mark :: rest =>
      if mark = 'e' ∨ mark = 'E' then
        match rest with
        | '-' :: digits => exponentDigits? true digits
        | '+' :: digits => exponentDigits? false digits
        | digits => exponentDigits? false digits
      else none
    | [] => none
  match found with
  | some (exponent, rest) => (some exponent, rest)
  | none => (none, cs)

/-- The numeral at the front of the text. -/
def numeral? (cs : List Char) : Option (Numeral × List Char) :=
  let (negative, cs) := readSign cs
  let (whole, cs) := readWhole cs
  if whole.isEmpty then none
  else
    let (fraction, cs) := readFraction cs
    let (exponent, cs) := readExponent cs
    some (⟨negative, whole, fraction, exponent⟩, cs)

/-! ### Values -/

/-- The words that stand for a value. -/
def wordValues : List (String × Json) :=
  [("null", .null), ("true", .bool true), ("false", .bool false), ("NaN", .float .nan),
    ("Infinity", .float (.infinity false)), ("-Infinity", .float (.infinity true))]

/-- The word value at the front of the text. -/
def wordValue? (cs : List Char) : Option (Json × List Char) :=
  wordValues.findSome? fun (word, value) => (afterWord? word cs).map (value, ·)

/-- A value that is neither a string nor a list nor an object. -/
def readScalar (cs : List Char) : Except Fault (Json × List Char) :=
  match wordValue? cs with
  | some found => .ok found
  | none =>
    match numeral? cs with
    | some (numeral, rest) => numeral.value.map (·, rest)
    | none => failAt .expectingValue cs

mutual

/-- The value at the front of the text, read in at most `fuel` nested steps. -/
def readValue : (fuel : Nat) → List Char → Except Fault (Json × List Char)
  | 0, cs => failAt .expectingValue cs
  | fuel + 1, cs =>
    match cs with
    | '"' :: rest => (stringTail half (rest.length + 1) rest).map fun r =>
        (.string (String.ofList r.1), r.2)
    | '[' :: rest =>
      match skipSpace rest with
      | ']' :: after => .ok (.array [], after)
      | inner => (readItems fuel inner).map fun r => (.array r.1, r.2)
    | '\x7b' :: rest =>
      match skipSpace rest with
      | '\x7d' :: after => .ok (.object [], after)
      | inner => (readFields fuel inner).map fun r =>
          (.object (Assoc.putAll [] r.1), r.2)
    | _ => readScalar cs

/-- The items of a list up to its closing bracket. -/
def readItems : (fuel : Nat) → List Char → Except Fault (List Json × List Char)
  | 0, cs => failAt .expectingValue cs
  | fuel + 1, cs => do
    let (item, rest) ← readValue fuel cs
    match skipSpace rest with
    | ']' :: after => .ok ([item], after)
    | ',' :: after => do
      let (items, rest) ← readItems fuel (skipSpace after)
      .ok (item :: items, rest)
    | other => failAt .expectingComma other

/-- The fields of an object up to its closing brace, in the order of the text. -/
def readFields : (fuel : Nat) → List Char →
    Except Fault (List (String × Json) × List Char)
  | 0, cs => failAt .expectingName cs
  | fuel + 1, cs =>
    match cs with
    | '"' :: rest => do
      let (name, rest) ← stringTail half (rest.length + 1) rest
      match skipSpace rest with
      | ':' :: after => do
        let (value, rest) ← readValue fuel (skipSpace after)
        match skipSpace rest with
        | '\x7d' :: after => .ok ([(String.ofList name, value)], after)
        | ',' :: after => do
          let (fields, rest) ← readFields fuel (skipSpace after)
          .ok ((String.ofList name, value) :: fields, rest)
        | other => failAt .expectingComma other
      | other => failAt .expectingColon other
    | other => failAt .expectingName other

end

/-- The value of a whole document. -/
def readDocument (cs : List Char) : Except Fault Json :=
  if cs.head? = some '\ufeff' then failAt .byteOrderMark cs
  else do
    let (value, rest) ← readValue half (2 * cs.length + 2) (skipSpace cs)
    if (skipSpace rest).isEmpty then .ok value else failAt .extraData (skipSpace rest)

end

/-- The error for a fault in the text `cs`: the line counts the newlines before the
place, and the column the characters since the last of them. -/
def Fault.toError (cs : List Char) : Fault → ReadError
  | .found problem left =>
    let offset := cs.length - left
    let before := cs.take offset
    .malformed problem (before.count '\n' + 1)
      ((before.reverse.takeWhile (· ≠ '\n')).length + 1) offset
  | .tooManyDigits count => .tooManyDigits count

/-- The replacement character, which stands for what a text cannot hold. -/
def replacement (_ : Nat) : Char := '\ufffd'

/-- Reads a JSON document; `half` gives the characters that stand for halves of
surrogate pairs. -/
def read (text : String) (half : Nat → Char := replacement) : Except ReadError Json :=
  (readDocument half text.toList).mapError (Fault.toError text.toList)

end Formulary.Json
