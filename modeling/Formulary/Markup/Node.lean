import Formulary.Markup.Tree

/-!
# Nodes of math markup

The form in which markup is handed out: nodes with their content and, where they come
from a source, with their place in it. Nodes may also be made by hand.

## Main definitions

* `Node` is an element of markup and `Argument` an argument of a command.
* `Tree.node` places a tree in a source.
-/

namespace Formulary.Markup

/-- A range of offsets of a source, from `start` up to and without `stop`. -/
structure Span where
  start : Nat
  stop : Nat
  deriving DecidableEq, Repr

mutual

/-- An element of markup. -/
inductive Node where
  /-- Literal text. -/
  | text (content : List Char) (span : Option Span)
  /-- Blank space. -/
  | blank (content : List Char) (span : Option Span)
  /-- A comment with its percent sign. -/
  | comment (content : List Char) (span : Option Span)
  /-- A group in braces. -/
  | group (children : List Node) (span : Option Span)
  /-- A command by its name, which for a script mark is the mark itself. -/
  | command (name : String) (args : List Argument) (span : Option Span)

/-- An argument of a command: the marks around it and its content. -/
inductive Argument where
  | mk (opening closing : String) (content : List Node)

end

instance : Inhabited Node := ⟨.text [] none⟩

/-- The place of a node. -/
def Node.span : Node → Option Span
  | .text _ span | .blank _ span | .comment _ span | .group _ span
      | .command _ _ span => span

/-- The content of an argument. -/
def Argument.content : Argument → List Node
  | .mk _ _ content => content

/-- The marks that an argument shows. Braces always show in pairs. -/
def Enclosure.marks : Enclosure → String × String
  | .bare => ("", "")
  | .braces _ => ("\x7b", "\x7d")
  | .brackets closed => ("[", if closed then "]" else "")

mutual

/-- The node of a tree whose text starts at the offset `start`. -/
def Tree.node (start : Nat) : Tree → Node
  | .text chars => .text chars (some ⟨start, start + chars.length⟩)
  | .gap lexeme =>
    if lexeme.kind = .comment then
      .comment lexeme.text (some ⟨start, start + lexeme.text.length⟩)
    else .blank lexeme.text (some ⟨start, start + lexeme.text.length⟩)
  | .stray => .text ['}'] (some ⟨start, start + 1⟩)
  | .group body closed =>
    .group (treesNodes (start + 1) body)
      (some ⟨start, start + (Tree.group body closed).width⟩)
  | .command head args missing =>
    .command head.name (argsArguments (start + head.text.length) args)
      (some ⟨start, start + (Tree.command head args missing).width⟩)

/-- The nodes of trees in a row, the first of which starts at the offset `start`. -/
def treesNodes (start : Nat) : List Tree → List Node
  | [] => []
  | t :: ts => t.node start :: treesNodes (start + t.width) ts

/-- The arguments of a command whose text starts at the offset `start`. -/
def argsArguments (start : Nat) : List Arg → List Argument
  | [] => []
  | .mk before enclosure body :: rest =>
    .mk enclosure.marks.1 enclosure.marks.2
        (treesNodes (start + (lexemesText before).length + enclosure.opening.length)
          body) ::
      argsArguments (start + (argsChars [.mk before enclosure body]).length) rest

end

end Formulary.Markup
