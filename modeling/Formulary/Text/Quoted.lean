import Formulary.Text.Hex
import Formulary.Text.Printable

/-!
# Quoted text

The written form of a text inside the description of a value: the text between two
quote marks, with the characters that would not show escaped. The mark is the
apostrophe unless the text holds apostrophes and no double quotes.

## Main definitions

* `quoted` is the written form that keeps every printable character.
* `quotedAscii` is the written form that keeps ASCII only.
-/

namespace Formulary.Text

/-- The quote mark for a text: `"` when the text holds `'` and no `"`, else `'`. -/
def quoteMark (cs : List Char) : Char :=
  if cs.contains '\'' && !cs.contains '"' then '"' else '\''

/-- The escape of a character by its code point, as short as the code point
allows. -/
def escapeCode (c : Char) : List Char :=
  if c.toNat < 0x100 then '\\' :: 'x' :: hexPadded 2 c.toNat
  else if c.toNat < 0x10000 then '\\' :: 'u' :: hexPadded 4 c.toNat
  else '\\' :: 'U' :: hexPadded 8 c.toNat

/-- A character as it stands between the quote marks `mark`; `shown` decides which
characters stand for themselves. -/
def quotedChar (shown : Char → Bool) (mark c : Char) : List Char :=
  if c = mark ∨ c = '\\' then ['\\', c]
  else if c = '\n' then ['\\', 'n']
  else if c = '\r' then ['\\', 'r']
  else if c = '\t' then ['\\', 't']
  else if shown c then [c]
  else escapeCode c

/-- A text between quote marks, with every character escaped that `shown` rejects. -/
def quotedWith (shown : Char → Bool) (s : String) : String :=
  let mark := quoteMark s.toList
  String.ofList (mark :: (s.toList.flatMap (quotedChar shown mark) ++ [mark]))

/-- The quoted form of a text in which printable characters stand for themselves. -/
def quoted (s : String) : String :=
  quotedWith isPrintable s

/-- The quoted form of a text in which only printable ASCII characters stand for
themselves. -/
def quotedAscii (s : String) : String :=
  quotedWith (fun c => isPrintable c && c.toNat < 0x80) s

end Formulary.Text
