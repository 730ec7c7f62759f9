import Formulary.Markup.Node
import Formulary.Markup.Parser
import Formulary.Markup.Warning

/-!
# Parsed sources

A source with its trees, and the views that the rest of the library uses: nodes with
places, warnings, and the depth of nesting.

## Main definitions

* `Document` is a parsed source, and `parse` makes one.
* `Document.nodes` and `Document.warnings` are what a caller sees.
* `nestingLimit` is the depth beyond which a document is refused by the functions
  that walk it.
* `Reader` reads one source after the other.
-/

namespace Formulary.Markup

/-- A parsed source. -/
structure Document where
  lexemes : List Lexeme
  trees : List Tree

/-- Parses a source. -/
def parse (table : CommandTable) (source : String) : Document :=
  let lexemes := lex source.toList
  ⟨lexemes, readTrees table lexemes⟩

namespace Document

/-- The top-level nodes of a document. -/
def nodes (d : Document) : List Node :=
  treesNodes 0 d.trees

/-- The warnings of a document, in the order in which reading meets them. -/
def warnings (d : Document) : List Warning :=
  treesWarnings 0 d.trees

/-- The depth of nesting of a document. -/
def depth (d : Document) : Nat :=
  treesDepth d.trees

end Document

/-- The deepest nesting of a document that is walked. What limits a walk is the room
for calls, and how many levels fit into it depends on their kinds and on where the
walk starts; a fixed number of levels stands for it here, in which a group and an
argument count alike, whether or not the argument is braced. -/
def nestingLimit : Nat := 300

/-- The document is nested more deeply than the limit. -/
inductive TooDeep where
  | nesting
  deriving DecidableEq, Repr

/-- Parses a source that is nested no deeper than the limit. -/
def parseWithin (table : CommandTable) (source : String) : Except TooDeep Document :=
  let d := parse table source
  if d.depth ≤ nestingLimit then .ok d else .error .nesting

/-! ### Reading one source after the other -/

/-- A reader with what it keeps between sources: the number of lexemes it went past
in the last source and the warnings of that source. -/
structure Reader where
  table : CommandTable
  cursor : Nat
  warnings : List Warning

namespace Reader

/-- A reader that has read nothing. -/
def ofTable (table : CommandTable) : Reader := ⟨table, 0, []⟩

/-- Reads a source. -/
def read (r : Reader) (source : String) : Reader × List Node :=
  let d := parse r.table source
  ({ r with cursor := d.lexemes.length, warnings := d.warnings }, d.nodes)

end Reader

end Formulary.Markup
