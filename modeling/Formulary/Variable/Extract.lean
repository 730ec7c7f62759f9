import Formulary.Markup.Document
import Formulary.Text.NameSet
import Formulary.Variable.Modifier
import Formulary.Variable.Written

/-!
# The variables of a formula

A letter, a command that names a letter, or a decorated argument is the base of a
variable. A subscript right after it belongs to the name; a superscript after these
belongs to the name if it is alphabetic, is an exponent and says nothing if it is
numeric, and is otherwise searched for variables of its own.

## Main definitions

* `Candidate` is a base with the scripts found so far.
* `nodeNames` takes one node, and `nodesNames` lists the identities that nodes
  contribute, constants included.
* `variablesOfNodes` and `variablesOfSource` are the variables of nodes and of a
  source.

## Design notes

The walk looks at one node at a time and carries the candidate that the node may
continue. So each list of nodes falls into stretches that do not influence each
other.
-/

namespace Formulary.Variable

open Formulary.Markup

/-- A base that later nodes may continue. -/
structure Candidate where
  base : List Char
  /-- The base and its subscript, if it has one that shows something. -/
  identity : List Char
  /-- Whether a subscript that shows something is part of the identity. -/
  subscripted : Bool
  /-- Whether a subscript may still follow. -/
  takesSubscript : Bool

namespace Candidate

/-- A base without scripts. -/
def ofBase (base : List Char) : Candidate :=
  ⟨base, base, false, true⟩

/-- The candidate with a subscript. -/
def withSubscript (table : CommandTable) (content : List Node)
    (c : Candidate) : Candidate :=
  if classify table content = .empty then { c with takesSubscript := false }
  else
    ⟨c.base, c.base ++ '_' :: formatModifier (nodesWritten table content), true, false⟩

/-- The identities of a candidate with a superscript; `nested` are the identities
inside of the superscript. -/
def withSuperscript (table : CommandTable) (content : List Node)
    (nested : List (List Char)) (c : Candidate) : List (List Char) :=
  match classify table content with
  | .empty | .numeric => [c.identity]
  | .alphabetic =>
    if c.subscripted || !table.isConstant (String.ofList c.base) then
      [c.identity ++ '^' :: formatModifier (nodesWritten table content)]
    else c.identity :: nested
  | .mixed => c.identity :: nested

end Candidate

/-- The identity of a candidate that nothing continues. -/
def flush : Option Candidate → List (List Char)
  | none => []
  | some c => [c.identity]

/-- The base that a command with a first argument starts, if any. -/
def commandBase? (table : CommandTable) (name : String) (content : List Node) :
    Option (List Char) :=
  if table.isLetter name then some ('\\' :: name.toList)
  else if table.isDecorator name then
    some ('\\' :: (name.toList ++ braced (nodesWritten table content)))
  else none

/-- The candidate that a subscript continues. -/
def subscriptOf? (cur : Option Candidate) (name : String) : Option Candidate :=
  if name = "_" then cur.filter (·.takesSubscript) else none

/-- The candidate that a superscript continues. -/
def superscriptOf? (cur : Option Candidate) (name : String) : Option Candidate :=
  if name = "^" then cur else none

mutual

/-- The identities that a node completes after the candidate `cur`, and the candidate
that it leaves. -/
def nodeNames (table : CommandTable) (cur : Option Candidate) :
    Node → List (List Char) × Option Candidate
  | .text content _ =>
    match content with
    | [c] => (flush cur, if c.isAlpha then some (.ofBase [c]) else none)
    | cs => (flush cur ++ (cs.filter Char.isAlpha).map ([·]), none)
  | .blank _ _ => (flush cur, none)
  | .comment _ _ => (flush cur, none)
  | .group children _ => (flush cur ++ nodesNames table none children, none)
  | .command name [] _ =>
    (flush cur, if table.isLetter name
      then some (.ofBase ('\\' :: name.toList)) else none)
  | .command name (.mk _ _ content :: more) _ =>
    match subscriptOf? cur name, superscriptOf? cur name with
    | some c, _ => ([], some (c.withSubscript table content))
    | none, some c => (c.withSuperscript table content (nodesNames table none content),
        none)
    | none, none =>
      match commandBase? table name content with
      | some base => (flush cur, some (.ofBase base))
      | none => (flush cur ++
          (nodesNames table none content ++ argumentsNames table more), none)

/-- The identities that nodes contribute after the candidate `cur`. -/
def nodesNames (table : CommandTable) (cur : Option Candidate) :
    List Node → List (List Char)
  | [] => flush cur
  | n :: ns =>
    let r := nodeNames table cur n
    r.1 ++ nodesNames table r.2 ns

/-- The identities that the contents of arguments contribute. -/
def argumentsNames (table : CommandTable) : List Argument → List (List Char)
  | [] => []
  | .mk _ _ content :: rest =>
      nodesNames table none content ++ argumentsNames table rest

end

/-- The variables of nodes: their distinct identities that are no constants, in
increasing order. -/
def variablesOfNodes (table : CommandTable) (nodes : List Node) : List String :=
  NameSet.ofList
    (((nodesNames table none nodes).map String.ofList).filter (!table.isConstant ·))

/-- The variables of a source. A source that is nested too deeply has none. -/
def variablesOfSource (table : CommandTable) (source : String) : List String :=
  match parseWithin table source with
  | .ok d => variablesOfNodes table d.nodes
  | .error _ => []

/-- A source written anew from its nodes. -/
def rebuild (table : CommandTable) (source : String) : Except TooDeep String := do
  let d ← parseWithin table source
  return String.ofList (nodesWritten table d.nodes)

/-- The kind of a source read as the content of a script. -/
def classifySource (table : CommandTable) (source : String) :
    Except TooDeep ModifierKind := do
  let d ← parseWithin table source
  return classify table d.nodes

end Formulary.Variable
