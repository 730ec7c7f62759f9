import Formulary.Formula.Binding
import Formulary.Formula.Standard
import Formulary.Json.Reader
import Formulary.Schema.FormulaTable
import Formulary.Text.Newline
import Formulary.Text.Path
import Formulary.Text.Utf8

/-!
# Requests for formulas

A request gives an expression as the text of a JSON document, and says which cells
its symbols stand for and which table to use. Cells come from a file and from
assignments, and the assignments win.

## Main definitions

* `Files` is what a request can read, by normal paths, and `Files.ofContents` makes
  it from bytes.
* `FormulaRequest` is a request, and `FormulaRequest.formula` answers it.
* `RequestError` is why a request has no answer, and `RequestError.report?` its
  wording.

## Design notes

The parts of a request are read in a fixed order, which decides between several
faults: the expression, the file of cells, the assignments, the table. The expression
is rendered last.
-/

namespace Formulary

/-- The files that a request can read, by their normal paths: texts, and tables as
data. -/
structure Files where
  text? : String → Option String
  table? : String → Option Json
  /-- What keeps a file from being a text; it is not asked for where there is one. -/
  fault? : String → Option Text.Utf8.Fault := fun _ => .none
  /-- The characters that stand for halves of surrogate pairs in documents. -/
  half : Nat → Char := Json.replacement

namespace Files

/-- There are no files. -/
def none : Files where
  text? _ := .none
  table? _ := .none

/-- Files by the bytes that they hold; tables are given as data. -/
def ofContents (contents? : String → Option (List UInt8))
    (table? : String → Option Json) : Files where
  text? name := (contents? name).bind fun bytes => (Text.Utf8.decode bytes).toOption
  table? := table?
  fault? name :=
    (contents? name).bind fun bytes =>
      match Text.Utf8.decode bytes with
      | .ok _ => .none
      | .error fault => some fault

end Files

/-- A request for a formula. Files without a name are not asked for. -/
structure FormulaRequest where
  /-- The text of the expression. -/
  expression : String
  /-- Assignments of cells to symbols, such as `x=A1`. -/
  assignments : List String := []
  /-- The name of a file that gives cells to symbols. -/
  cellFile : String := ""
  /-- The name of a file with a table that takes the place of the standard one. -/
  tableFile : String := ""
  /-- Whether some names are plain symbols, as in algebra. -/
  algebra : Bool := false
  deriving DecidableEq, Repr

/-- Why a file does not name symbols. -/
inductive CellFileFault where
  /-- It is no text. -/
  | noText (fault : Text.Utf8.Fault)
  /-- The document in the file of the given name is no object. -/
  | noObject (name : String)
  deriving DecidableEq, Repr

def CellFileFault.message : CellFileFault → String
  | .noText fault => fault.message
  | .noObject name => "Variable map file must hold a JSON object: " ++ name

/-- Why a request has no answer. -/
inductive RequestError where
  /-- The expression or the file of cells is no JSON document. -/
  | unreadable (error : Json.ReadError)
  /-- The name of the file of cells cannot be the name of a file. -/
  | nullInName
  /-- There is no file of cells of the given name. -/
  | missingCells (name : String)
  /-- The file of cells does not name symbols. -/
  | unnamedCells (fault : CellFileFault)
  | badAssignment (error : BadAssignment)
  | badTable (error : Schema.TableError)
  | noFormula (error : FormulaError)
  /-- There is a formula, but it cannot be printed. -/
  | unprintable (message : String)
  deriving DecidableEq, Repr

namespace FormulaRequest

/-- The cells that the text of a file gives to symbols; `name` is the name of the
file. -/
def cellsOfText (files : Files) (name text : String) :
    Except RequestError VariableMap :=
  match Json.read (Text.withLineFeeds text) files.half with
  | .error e => .error (.unreadable e)
  | .ok (.object fields) => .ok (Schema.entryTexts fields)
  | .ok _ => .error (.unnamedCells (.noObject name))

/-- The cells that a file gives to symbols. -/
def fileCells (files : Files) (name : String) : Except RequestError VariableMap :=
  if name.isEmpty then .ok []
  else if name.toList.contains '\x00' then .error .nullInName
  else
    match files.text? (Text.normalPath name), files.fault? (Text.normalPath name) with
    | some text, _ => cellsOfText files name text
    | none, some fault => .error (.unnamedCells (.noText fault))
    | none, none => .error (.missingCells name)

/-- The table of a file, or the standard one. -/
def fileTable (files : Files) (name : String) : Except RequestError FormulaTable :=
  if name.isEmpty then .ok FormulaTable.standard
  else
    match files.table? (Text.normalPath name) with
    | some data => (Schema.formulaTableOfData data).mapError .badTable
    | none => .error (.badTable (.missingFile "Mapping" name))

/-- The expression, the table and the cells that a request gives. -/
structure Parts where
  expression : Json
  table : FormulaTable
  cells : VariableMap

/-- Reads the parts of a request. -/
def parts (files : Files) (r : FormulaRequest) : Except RequestError Parts := do
  let expression ← (Json.read r.expression files.half).mapError .unreadable
  let cells ← fileCells files r.cellFile
  let assigned ← (parseAssignments r.assignments).mapError .badAssignment
  let table ← fileTable files r.tableFile
  return {
    expression
    table := if r.algebra then ({} : AlgebraMode).apply table else table
    cells := Assoc.putAll cells assigned }

/-- The formula that a request asks for. -/
def formula (files : Files) (r : FormulaRequest) : Except RequestError String := do
  let p ← r.parts files
  (Formulary.formula p.table p.cells p.expression).mapError .noFormula

end FormulaRequest

/-- The wording of a failure to a user. A table whose data or templates are of the
wrong shape is a fault of whoever wrote the table, and has none. -/
def RequestError.report? : RequestError → Option String
  | .unreadable (.malformed problem line column offset) =>
    some ("Invalid MathJSON: " ++
      (Json.ReadError.malformed problem line column offset).message)
  | .unreadable e => some e.message
  | .nullInName => some "embedded null byte"
  | .missingCells name =>
      some ("[Errno 2] No such file or directory: " ++ Text.quoted name)
  | .unnamedCells fault => some fault.message
  | .badAssignment e => some e.message
  | .badTable e => e.report?
  | .noFormula (.badTemplate (.flawed flaw)) => some flaw.message
  | .noFormula (.badTemplate _) => none
  | .noFormula (.raised _) => none
  | .noFormula e => some e.message
  | .unprintable message => some message

end Formulary
