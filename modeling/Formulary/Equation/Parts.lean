import Formulary.Markup.Document

/-!
# The parts of an equation

An equation declares something in front of its first equals sign, says what it is
after it, and may end in a constraint after a comma. The parts are pieces of the
source, cut at these two characters and otherwise unchanged.

## Main definitions

* `EquationParts` holds the three parts.
* `splitAssignment` and `splitConstraint` cut trees at the equals sign and at the
  comma.
* `EquationParts.ofSource` cuts a source.

## Design notes

The cuts are made in the list of top-level trees, so characters inside of groups and
arguments are never seen. An equals sign after `<`, `>`, `!` or a backslash belongs
to a comparison. A comma counts when as many brackets have been opened as closed
since the equals sign, and as many left as right delimiters; both counts may go below
zero.
-/

namespace Formulary

open Formulary.Markup

/-- The three parts of an equation. -/
structure EquationParts where
  declaration : String := ""
  body : String := ""
  constraint : String := ""
  deriving DecidableEq, Repr

namespace EquationParts

/-- The parts in order. -/
def toList (p : EquationParts) : List String :=
  [p.declaration, p.body, p.constraint]

/-- The part at an index; negative indices count from the end. -/
def get? (p : EquationParts) (index : Int) : Option String :=
  if 0 ≤ index then p.toList[index.toNat]? else
    if -3 ≤ index then p.toList[(index + 3).toNat]? else none

end EquationParts

/-- Whether a tree ends in a character that makes a comparison of an equals sign
after it. -/
def endsComparison : Tree → Bool
  | .text chars => chars.getLast?.any fun c => c = '<' || c = '>' || c = '!' || c = '\\'
  | _ => false

/-- Cuts trees at the first equals sign that is no part of a comparison; `comparing`
says that the tree in front of them ends in the beginning of one. -/
def splitAssignment (comparing : Bool) : List Tree → Option (List Tree × List Tree)
  | [] => none
  | .text ['='] :: rest =>
    if comparing then
      (splitAssignment false rest).map fun r => (.text ['='] :: r.1, r.2)
    else some ([], rest)
  | t :: rest => (splitAssignment (endsComparison t) rest).map fun r => (t :: r.1, r.2)

/-- By how much a tree changes the number of open brackets. -/
def bracketChange : Tree → Int
  | .text ['('] | .text ['['] => 1
  | .text [')'] | .text [']'] => -1
  | _ => 0

/-- By how much a tree changes the number of open delimiters. -/
def delimiterChange : Tree → Int
  | .command head _ _ =>
      if head.name = "left" then 1 else if head.name = "right" then -1 else 0
  | _ => 0

/-- Cuts trees at the first comma outside of brackets and delimiters, of which
`brackets` and `delimiters` are open in front of the trees. -/
def splitConstraint (brackets delimiters : Int) :
    List Tree → Option (List Tree × List Tree)
  | [] => none
  | t :: rest =>
    if t.chars = [','] ∧ brackets = 0 ∧ delimiters = 0 then some ([], rest)
    else
      (splitConstraint (brackets + bracketChange t)
        (delimiters + delimiterChange t) rest).map
        fun r => (t :: r.1, r.2)

namespace EquationParts

/-- The text of trees as a string. -/
def textOf (ts : List Tree) : String :=
  String.ofList (treesChars ts)

/-- The parts of an equation after its declaration. -/
def ofBody (declaration : String) (ts : List Tree) : EquationParts :=
  match splitConstraint 0 0 ts with
  | none => { declaration, body := textOf ts }
  | some (body, constraint) =>
    { declaration, body := textOf body, constraint := textOf constraint }

/-- The parts of the trees of an equation. -/
def ofTrees (ts : List Tree) : EquationParts :=
  match splitAssignment false ts with
  | none => ofBody "" ts
  | some (declaration, rest) => ofBody (textOf declaration) rest

/-- The parts of an equation. One that is nested too deeply is all body. -/
def ofSource (table : CommandTable) (source : String) : EquationParts :=
  match parseWithin table source with
  | .ok d => ofTrees d.trees
  | .error _ => { body := source }

end EquationParts

end Formulary
