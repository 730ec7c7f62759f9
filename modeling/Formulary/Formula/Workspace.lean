import Formulary.Formula.Table

/-!
# Workspaces of formula tables

A workspace holds tables under names, and tables that were kept for later use. A kept
table is either shared with a name, so that changes under the name are seen, or a
copy of its own.

## Main definitions

* `Workspace` is a workspace.
* `Workspace.bind` names a new table, and `Workspace.update` changes a named one.
* `Workspace.share` keeps a named table, and `Workspace.keep` keeps a table of its
  own.
-/

namespace Formulary

/-- Tables by number, and the numbers of the named and of the kept ones. -/
structure Workspace where
  tables : List FormulaTable := []
  names : List (String × Nat) := []
  kept : List (String × Nat) := []

namespace Workspace

/-- The table of a name. -/
def named? (w : Workspace) (name : String) : Option FormulaTable :=
  (Assoc.lookup? name w.names).bind fun i => w.tables[i]?

/-- The table that was kept under a name. -/
def kept? (w : Workspace) (name : String) : Option FormulaTable :=
  (Assoc.lookup? name w.kept).bind fun i => w.tables[i]?

/-- Names a new table. What had the name before stays as it is where it was kept. -/
def bind (w : Workspace) (name : String) (table : FormulaTable) : Workspace :=
  { w with
    tables := w.tables ++ [table]
    names := Assoc.put name w.tables.length w.names }

/-- Changes a named table, also where it was kept. -/
def update (w : Workspace) (name : String)
    (change : FormulaTable → FormulaTable) : Workspace :=
  match Assoc.lookup? name w.names with
  | some i => { w with tables := w.tables.modify i change }
  | none => w

/-- Keeps a named table under the name `as`. -/
def share (w : Workspace) (name as : String) : Workspace :=
  match Assoc.lookup? name w.names with
  | some i => { w with kept := Assoc.put as i w.kept }
  | none => w

/-- Keeps a table of its own under the name `as`. -/
def keep (w : Workspace) (table : FormulaTable) (as : String) : Workspace :=
  { w with
    tables := w.tables ++ [table]
    kept := Assoc.put as w.tables.length w.kept }

end Workspace

end Formulary
