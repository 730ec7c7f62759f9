import Formulary.Markup.Node
import Formulary.Schema.Field

/-!
# Nodes as data

Nodes of markup may be made by hand from data. Only the fields that the type of a
node uses are kept, but all are checked; a place is checked and then forgotten.

## Main definitions

* `nodeOfFields` reads a node from its fields.
-/

namespace Formulary.Schema

open Formulary.Markup

/-- The types of nodes. -/
inductive NodeType where
  | text
  | command
  | group
  | blank
  | comment
  deriving DecidableEq, Repr

/-- The words for the types of nodes. -/
def nodeTypes : List (String × NodeType) :=
  [("string", .text), ("macro", .command), ("group", .group), ("whitespace", .blank),
    ("comment", .comment)]

/-- Reads the type of a node. -/
def readNodeType (value : Json) : Checked NodeType :=
  readAmong nodeTypes "'string', 'macro', 'group', 'whitespace' or 'comment'" value

/-- Reads a range of offsets, which is not kept. -/
def readSpan : Json → Checked Unit
  | .object fields =>
    ((requiredField "start" readInt fields).both
      (requiredField "end" readInt fields)).map
      fun _ => ()
  | _ => Checked.issue (.notFields "SourcePosition")

/-- The node of a type with the given parts. -/
def nodeOfParts (type : NodeType) (content : String) (children : List Node)
    (args : List Argument) : Node :=
  match type with
  | .text => .text content.toList none
  | .command => .command content args none
  | .group => .group children none
  | .blank => .blank content.toList none
  | .comment => .comment content.toList none

mutual

/-- Reads a node that is nested at most `fuel` levels deep. -/
def readNode : (fuel : Nat) → Json → Checked Node
  | 0, _ => Checked.issue (.notFields "MarkupNode")
  | fuel + 1, value =>
    match value with
    | .object fields =>
      let type := requiredField "node_type" readNodeType fields
      let content := fieldOr "" "content" readString fields
      let children := fieldOr [] "children" (readList (readNode fuel)) fields
      let args := fieldOr none "args"
        (readNullable (readList (readArgument fuel))) fields
      let span := fieldOr none "position" (readNullable readSpan) fields
      let others := refuseOthers
        ["node_type", "content", "children", "args", "position"] fields
      (((type.both content).both (children.both args)).both (span.both others)).map
        fun (((type, content), (children, args)), _) =>
          nodeOfParts type content children (args.getD [])
    | _ => Checked.issue (.notFields "MarkupNode")

/-- Reads an argument that is nested at most `fuel` levels deep. -/
def readArgument : (fuel : Nat) → Json → Checked Argument
  | 0, _ => Checked.issue (.notFields "MacroArgument")
  | fuel + 1, value =>
    match value with
    | .object fields =>
      let content := fieldOr [] "content" (readList (readNode fuel)) fields
      let opening := fieldOr "\x7b" "open_mark" readString fields
      let closing := fieldOr "\x7d" "close_mark" readString fields
      (content.both (opening.both closing)).map fun (content, (opening, closing)) =>
        .mk opening closing content
    | _ => Checked.issue (.notFields "MacroArgument")

end

/-- Reads a node from its fields. -/
def nodeOfFields (fields : List (String × Json)) : Checked Node :=
  readNode (Json.object fields).height (.object fields)

end Formulary.Schema
