import Formulary.Command.Table
import Formulary.Markup.Node
import Formulary.Text.Digit

/-!
# Written markup

The text of nodes in the form that identities use: blank space becomes a single
space, comments and the braces of groups go, and scripts and decorated letters get
braces.

## Main definitions

* `formatModifier` writes the content of a script: a single digit stays bare, all
  else is braced.
* `nodesWritten` writes nodes.
-/

namespace Formulary.Variable

open Formulary.Markup

/-- A text in braces. -/
def braced (cs : List Char) : List Char :=
  '{' :: (cs ++ ['}'])

/-- The content of a script as it stands after the mark: a single digit, or anything
else in braces. -/
def formatModifier (raw : List Char) : List Char :=
  match raw with
  | [c] => if Text.isDigit c then [c] else braced [c]
  | _ => braced raw

/-- Whether a name is that of a script mark. -/
def isScriptName (name : String) : Bool :=
  name = "_" || name = "^"

mutual

/-- The text of a node. Of a script mark and of a decorator only the first argument
is written. -/
def nodeWritten (table : CommandTable) : Node → List Char
  | .text content _ => content
  | .blank _ _ => [' ']
  | .comment _ _ => []
  | .group children _ => nodesWritten table children
  | .command name [] _ => if isScriptName name then name.toList else '\\' :: name.toList
  | .command name (.mk opening closing content :: rest) _ =>
    if isScriptName name then name.toList ++ formatModifier (nodesWritten table content)
    else if table.isDecorator name then
      '\\' :: (name.toList ++ braced (nodesWritten table content))
    else
      '\\' :: (name.toList ++ (opening.toList ++ (nodesWritten table content ++
        (closing.toList ++ argumentsWritten table rest))))

/-- The text of nodes in a row. -/
def nodesWritten (table : CommandTable) : List Node → List Char
  | [] => []
  | n :: ns => nodeWritten table n ++ nodesWritten table ns

/-- The text of arguments with their marks. -/
def argumentsWritten (table : CommandTable) : List Argument → List Char
  | [] => []
  | .mk opening closing content :: rest =>
    opening.toList ++ (nodesWritten table content ++
      (closing.toList ++ argumentsWritten table rest))

end

end Formulary.Variable
