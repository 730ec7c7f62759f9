import Formulary.Json.Basic

/-!
# Writing JSON documents

A printer that writes ASCII only. A document is either laid out over several lines,
each level two spaces further in, or written on a single line.

## Main definitions

* `Json.pretty` writes a value over several lines.
* `Json.line` writes a value on one line.
-/

namespace Formulary.Json

/-- The escape of a UTF-16 code unit. -/
def unitEscape (n : Nat) : List Char :=
  '\\' :: 'u' :: Text.hexPadded 4 n

/-- A character inside a string: controls and characters beyond ASCII are escaped,
those of more than sixteen bits as a surrogate pair. -/
def escapedChar (c : Char) : List Char :=
  match c with
  | '"' => ['\\', '"']
  | '\\' => ['\\', '\\']
  | '\n' => ['\\', 'n']
  | '\r' => ['\\', 'r']
  | '\t' => ['\\', 't']
  | '\x0c' => ['\\', 'f']
  | '\x08' => ['\\', 'b']
  | c =>
    let n := c.toNat
    if 0x20 ≤ n ∧ n < 0x7F then [c]
    else if n < 0x10000 then unitEscape n
    else
      unitEscape (0xD800 + (n - 0x10000) / 0x400) ++
        unitEscape (0xDC00 + (n - 0x10000) % 0x400)

/-- A string with its quotes. -/
def escaped (s : String) : String :=
  String.ofList ('"' :: (s.toList.flatMap escapedChar ++ ['"']))

/-- Where the parts of a list or an object stand: all on one line, or each on a line
of its own at a given depth. -/
inductive Layout where
  | line
  | pretty (depth : Nat)

namespace Layout

/-- The layout of the parts one level further in. -/
def deeper : Layout → Layout
  | .line => .line
  | .pretty depth => .pretty (depth + 1)

/-- The break in front of a part. -/
def lineBreak : Layout → String
  | .line => ""
  | .pretty depth => String.ofList ('\n' :: List.replicate (2 * depth) ' ')

/-- What separates two parts: a comma, a space if they share the line, and a
break. -/
def separator : Layout → String
  | .line => ", "
  | .pretty depth => "," ++ (Layout.pretty depth).lineBreak

/-- Parts between an opening and a closing mark. -/
def enclose (layout : Layout) (opening closing : String)
    (parts : List String) : String :=
  if parts.isEmpty then opening ++ closing
  else opening ++ layout.deeper.lineBreak ++
    layout.deeper.separator.intercalate parts ++
    layout.lineBreak ++ closing

end Layout

mutual

/-- A value in a layout. -/
def write (layout : Layout) : Json → String
  | .null => "null"
  | .bool b => if b then "true" else "false"
  | .int n => toString n
  | .float x => x.text
  | .string s => escaped s
  | .array items => layout.enclose "[" "]" (writeItems layout.deeper items)
  | .object fields => layout.enclose "\x7b" "\x7d" (writeFields layout.deeper fields)

/-- The items of a list in a layout. -/
def writeItems (layout : Layout) : List Json → List String
  | [] => []
  | item :: rest => write layout item :: writeItems layout rest

/-- The fields of an object in a layout. -/
def writeFields (layout : Layout) : List (String × Json) → List String
  | [] => []
  | (name, value) :: rest =>
    (escaped name ++ ": " ++ write layout value) :: writeFields layout rest

end

/-- A value written over several lines. -/
def pretty (value : Json) : String :=
  write (.pretty 0) value

/-- A value written on one line. -/
def line (value : Json) : String :=
  write .line value

end Formulary.Json
