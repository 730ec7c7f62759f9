import Formulary.Command.Table
import Formulary.Markup.Node

/-!
# Kinds of modifiers

The content of a script decides what the script means: a number is an exponent,
letters are part of a name, and anything else is an expression of its own.

## Main definitions

* `ModifierKind` lists the kinds, and `classify` tells the kind of a list of nodes.
-/

namespace Formulary.Variable

open Formulary.Markup

/-- The kinds of modifiers. -/
inductive ModifierKind where
  /-- Nothing but blank space. -/
  | empty
  /-- Digits only. -/
  | numeric
  /-- Letters, commands that name letters, and scripts made of these. -/
  | alphabetic
  /-- Anything else. -/
  | mixed
  deriving DecidableEq, Repr

/-! ### The three tests -/

mutual

/-- Whether a node shows nothing. -/
def nodeIsBlank : Node → Bool
  | .text content _ => content.all Text.isBlank
  | .blank _ _ => true
  | .comment _ _ => true
  | .group children _ => nodesAreBlank children
  | .command _ _ _ => false

/-- Whether nodes show nothing. -/
def nodesAreBlank : List Node → Bool
  | [] => true
  | n :: ns => nodeIsBlank n && nodesAreBlank ns

end

mutual

/-- Whether a node shows digits only, blank space apart. -/
def nodeIsNumeric : Node → Bool
  | .text content _ => !content.isEmpty && content.all Char.isDigit
  | .blank _ _ => true
  | .comment _ _ => true
  | .group children _ => nodesAreNumeric children
  | .command _ _ _ => false

/-- Whether nodes show digits only, blank space apart. -/
def nodesAreNumeric : List Node → Bool
  | [] => true
  | n :: ns => nodeIsNumeric n && nodesAreNumeric ns

end

/-- Whether a script mark with an argument is the first of some nodes. -/
def startsWithScript (mark : String) : List Node → Bool
  | .command name (_ :: _) _ :: _ => name = mark
  | _ => false

mutual

/-- Whether a node is part of a name. A constant that is `raised` to a power is
not. -/
def nodeIsAlphabetic (table : CommandTable) (raised : Bool) : Node → Bool
  | .text content _ =>
    !content.isEmpty && content.all Char.isAlpha &&
      !(table.isConstant (String.ofList content) && raised)
  | .blank _ _ => true
  | .comment _ _ => true
  | .group children _ => nodesAreAlphabetic table children
  | .command name args _ =>
    if name = "_" || name = "^" then !args.isEmpty && argumentsAreAlphabetic table args
    else table.isLetter name && !(table.isConstant ("\\" ++ name) && raised)

/-- Whether nodes are parts of a name. A constant is raised if the node right after
it is a superscript with an argument. -/
def nodesAreAlphabetic (table : CommandTable) : List Node → Bool
  | [] => true
  | n :: ns => nodeIsAlphabetic table (startsWithScript "^" ns) n &&
      nodesAreAlphabetic table ns

/-- Whether the contents of all arguments are parts of a name. -/
def argumentsAreAlphabetic (table : CommandTable) : List Argument → Bool
  | [] => true
  | .mk _ _ content :: rest =>
    nodesAreAlphabetic table content && argumentsAreAlphabetic table rest

end

/-- The kind of a modifier with the given content. -/
def classify (table : CommandTable) (nodes : List Node) : ModifierKind :=
  if nodesAreBlank nodes then .empty
  else if nodesAreNumeric nodes then .numeric
  else if nodesAreAlphabetic table nodes then .alphabetic
  else .mixed

end Formulary.Variable
