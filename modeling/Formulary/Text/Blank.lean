/-!
# Blank characters

The characters that separate words and that trimming removes. The set is fixed by
code point, so it does not depend on a locale; the zero-width space and the
byte-order mark are not in it.

## Main definitions

* `isBlank` decides whether a character is blank.
* `trim` drops the blanks at both ends of a text.
* `words` cuts a text at its blanks and drops the empty pieces.
-/

namespace Formulary.Text

/-- The blank characters: the ASCII controls from tab to carriage return and from
file separator to space, next line, the no-break space and the spaces and separators
of the general punctuation block, the Ogham space mark and the ideographic space. -/
def isBlank (c : Char) : Bool :=
  let n := c.toNat
  (0x09 ≤ n && n ≤ 0x0D) || (0x1C ≤ n && n ≤ 0x20) || n == 0x85 ||
    n == 0xA0 || n == 0x1680 ||
    (0x2000 ≤ n && n ≤ 0x200A) || n == 0x2028 || n == 0x2029 ||
      n == 0x202F || n == 0x205F ||
    n == 0x3000

/-- A newline is blank: this is what keeps a comment's end apart from the comment. -/
@[simp] theorem isBlank_newline : isBlank '\n' = true := rfl

/-- A text without the blanks at its two ends. -/
def trimChars (cs : List Char) : List Char :=
  ((cs.dropWhile isBlank).reverse.dropWhile isBlank).reverse

/-- A string without the blanks at its two ends. -/
def trim (s : String) : String :=
  String.ofList (trimChars s.toList)

/-- The maximal runs of non-blank characters, in order. -/
def wordChars : List Char → List (List Char)
  | [] => []
  | c :: cs =>
    if isBlank c then
      wordChars cs
    else
      match cs, wordChars cs with
      | d :: _, w :: ws => if isBlank d then [c] :: w :: ws else (c :: w) :: ws
      | _, ws => [c] :: ws

/-- The words of a string: its maximal runs of non-blank characters, in order. -/
def words (s : String) : List String :=
  (wordChars s.toList).map String.ofList

end Formulary.Text
