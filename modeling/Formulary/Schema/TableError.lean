import Formulary.Schema.Issue
import Formulary.Text.Path

/-!
# Failures of table data

## Main definitions

* `TableError` is why data gives no table, and `TableError.report?` its wording.
-/

namespace Formulary.Schema

/-- Why data gives no table. -/
inductive TableError where
  /-- There is no file of the given name; `what` says for what kind of table. -/
  | missingFile (what name : String)
  /-- Data that should have named sections or entries has none. -/
  | notNamed
  /-- Data that should list names, or hold the fields of an entry, does not. -/
  | unusable
  /-- An entry is described wrongly. -/
  | invalid (issues : List Issue)
  deriving DecidableEq, Repr

/-- The text of a place, with dots between its steps. -/
def pathText (path : List PathStep) : String :=
  ".".intercalate (path.map fun
    | .field name => name
    | .index i => toString i)

/-- The wording of an issue, with its place if it has one. -/
def Issue.report (i : Issue) : String :=
  if i.path.isEmpty then i.kind.message else pathText i.path ++ ": " ++ i.kind.message

/-- The wording of a failure to a user. Data of the wrong shape is a fault of whoever
wrote it, and has none. -/
def TableError.report? : TableError → Option String
  | .missingFile what name =>
      some (what ++ " config file not found: " ++ Text.normalPath name)
  | .notNamed => none
  | .unusable => none
  | .invalid issues => some ("\n".intercalate (issues.map Issue.report))

end Formulary.Schema
