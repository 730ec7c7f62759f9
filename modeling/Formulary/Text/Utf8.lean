import Formulary.Text.Hex

/-!
# Texts as bytes

Files hold bytes. Those of a text follow UTF-8: the first byte of a character says
how many more belong to it.

## Main definitions

* `Utf8.decode` reads bytes as a text.
* `Utf8.Fault` is why bytes are no text, and `Utf8.Fault.message` its wording.
-/

namespace Formulary.Text.Utf8

/-- What keeps bytes from being a text. -/
inductive Reason where
  /-- No character starts with the byte. -/
  | start
  /-- The byte behind the blamed ones does not go on with their character. -/
  | continuation
  /-- There is no byte behind the blamed ones, and their character is not
  complete. -/
  | ending
  deriving DecidableEq, Repr

def Reason.message : Reason → String
  | .start => "invalid start byte"
  | .continuation => "invalid continuation byte"
  | .ending => "unexpected end of data"

/-- The bytes that are to blame, and the offset of the first of them. -/
structure Fault where
  offset : Nat
  bytes : List UInt8
  reason : Reason
  deriving DecidableEq, Repr

/-- The bytes that a fault blames, as its wording names them. -/
def Fault.place (f : Fault) : String :=
  match f.bytes with
  | [b] => "byte 0x" ++ String.ofList (hexPadded 2 b.toNat) ++
      " in position " ++ toString f.offset
  | bytes =>
    "bytes in position " ++ toString f.offset ++ "-" ++
      toString (f.offset + bytes.length - 1)

def Fault.message (f : Fault) : String :=
  "'utf-8' codec can't decode " ++ f.place ++ ": " ++ f.reason.message

/-- A character of which some bytes are read and at least one is still to come. -/
structure Open where
  /-- The bytes that are read. -/
  bytes : List UInt8
  /-- How many bytes there are behind the next one. -/
  more : Nat
  /-- The bits that are read. -/
  value : Nat
  /-- The bounds of the next byte. -/
  low : Nat := 0x80
  high : Nat := 0xBF

/-- The character that a byte starts if it takes more than one byte. The bounds leave
out what has a shorter form, halves of surrogate pairs and what lies above all
characters. -/
def opened? (b : UInt8) : Option Open :=
  let n := b.toNat
  if n < 0xC2 then none
  else if n < 0xE0 then some { bytes := [b], more := 0, value := n - 0xC0 }
  else if n < 0xF0 then
    some {
      bytes := [b], more := 1, value := n - 0xE0
      low := if n = 0xE0 then 0xA0 else 0x80
      high := if n = 0xED then 0x9F else 0xBF }
  else if n < 0xF5 then
    some {
      bytes := [b], more := 2, value := n - 0xF0
      low := if n = 0xF0 then 0x90 else 0x80
      high := if n = 0xF4 then 0x8F else 0xBF }
  else none

/-- Reads on inside of a character or between two; `offset` is that of the
character. -/
def decodeFrom (offset : Nat) : Option Open → List UInt8 → Except Fault (List Char)
  | none, [] => .ok []
  | some o, [] => .error ⟨offset, o.bytes, .ending⟩
  | none, b :: rest =>
    if b.toNat < 0x80 then do
      let chars ← decodeFrom (offset + 1) none rest
      return Char.ofNat b.toNat :: chars
    else
      match opened? b with
      | some o => decodeFrom offset (some o) rest
      | none => .error ⟨offset, [b], .start⟩
  | some o, b :: rest =>
    if o.low ≤ b.toNat ∧ b.toNat ≤ o.high then
      let value := o.value * 64 + (b.toNat - 0x80)
      match o.more with
      | 0 => do
        let chars ← decodeFrom (offset + o.bytes.length + 1) none rest
        return Char.ofNat value :: chars
      | more + 1 => decodeFrom offset
          (some { bytes := o.bytes ++ [b], more, value }) rest
    else .error ⟨offset, o.bytes, .continuation⟩

/-- The text that bytes are, or why they are none. -/
def decode (bytes : List UInt8) : Except Fault String :=
  (decodeFrom 0 none bytes).map String.ofList

end Formulary.Text.Utf8
