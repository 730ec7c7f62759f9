import Formulary.Markup.Lexeme

/-!
# Trees of math markup

The structure of a source, with every character kept: the text of a tree is the text
it was read from.

## Main definitions

* `Tree` is a piece of markup and `Arg` an argument of a command.
* `Tree.chars` is the text of a tree and `Tree.width` its length.
* `Tree.depth` is the number of nested levels of a tree.
-/

namespace Formulary.Markup

/-- What encloses an argument. -/
inductive Enclosure where
  /-- Nothing: the argument is a single token or command. -/
  | bare
  /-- Braces, of which the closing one may be missing. -/
  | braces (closed : Bool)
  /-- Brackets, of which the closing one may be missing. -/
  | brackets (closed : Bool)
  deriving DecidableEq, Repr

namespace Enclosure

/-- The opening mark in the source. -/
def opening : Enclosure → List Char
  | .bare => []
  | .braces _ => ['{']
  | .brackets _ => ['[']

/-- The closing mark in the source. -/
def closing : Enclosure → List Char
  | .bare => []
  | .braces closed => if closed then ['}'] else []
  | .brackets closed => if closed then [']'] else []

end Enclosure

mutual

/-- A piece of markup. -/
inductive Tree where
  /-- A character or a run of characters. -/
  | text (chars : List Char)
  /-- A blank or a comment. -/
  | gap (lexeme : Lexeme)
  /-- A closing brace that closes nothing. -/
  | stray
  /-- A group in braces, of which the closing one may be missing. -/
  | group (body : List Tree) (closed : Bool)
  /-- A control sequence or a script mark with its arguments; `missing` says that the
  source does not have an argument that the command asks for. -/
  | command (head : Lexeme) (args : List Arg) (missing : Bool)

/-- An argument of a command: the blanks and comments in front of it, what encloses
it, and its content. -/
inductive Arg where
  | mk (before : List Lexeme) (enclosure : Enclosure) (body : List Tree)

end

/-- A control sequence without arguments. -/
def Tree.plain (head : Lexeme) : Tree :=
  .command head [] false

/-! ### Text -/

mutual

/-- The text of a tree. -/
def Tree.chars : Tree → List Char
  | .text chars => chars
  | .gap lexeme => lexeme.text
  | .stray => ['}']
  | .group body closed => '{' :: (treesChars body ++ if closed then ['}'] else [])
  | .command head args _ => head.text ++ argsChars args

/-- The text of trees in a row. -/
def treesChars : List Tree → List Char
  | [] => []
  | t :: ts => t.chars ++ treesChars ts

/-- The text of the arguments of a command. -/
def argsChars : List Arg → List Char
  | [] => []
  | .mk before enclosure body :: rest =>
    lexemesText before ++
      (enclosure.opening ++ (treesChars body ++ (enclosure.closing ++ argsChars rest)))

end

/-- The length of a tree's text. -/
def Tree.width (t : Tree) : Nat :=
  t.chars.length

/-! ### Nesting -/

mutual

/-- The number of levels of a tree: a group and a command with arguments are one
level above their content. -/
def Tree.depth : Tree → Nat
  | .text _ => 0
  | .gap _ => 0
  | .stray => 0
  | .group body _ => treesDepth body + 1
  | .command _ args _ => argsDepth args

/-- The number of levels of trees in a row. -/
def treesDepth : List Tree → Nat
  | [] => 0
  | t :: ts => max t.depth (treesDepth ts)

/-- The number of levels of a command with the given arguments. -/
def argsDepth : List Arg → Nat
  | [] => 0
  | .mk _ _ body :: rest => max (treesDepth body + 1) (argsDepth rest)

end

end Formulary.Markup
