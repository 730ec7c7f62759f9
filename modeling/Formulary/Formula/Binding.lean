import Formulary.Formula.Render
import Formulary.Text.Blank

/-!
# Variable maps

Variable maps tie symbols to cells. They are made from the rows of a panel, or from
assignments such as `x=A1`. A symbol that comes again keeps its place and takes the
last cell.

## Main definitions

* `VariableBinding` is a row of the panel, and `variableMap` makes a map of rows.
* `parseAssignments` makes a map of assignments.
-/

namespace Formulary

/-- A row of the panel: a variable, its units and its cell. -/
structure VariableBinding where
  variableText : String
  units : String
  cell : String
  deriving DecidableEq, Repr

/-- A row with the blanks at the ends of its texts removed. -/
def VariableBinding.trimmed (b : VariableBinding) : VariableBinding :=
  ⟨Text.trim b.variableText, Text.trim b.units, Text.trim b.cell⟩

/-- The map of rows; `resolve` gives the symbol of a variable. Rows without a
variable are left out. -/
def variableMap (resolve : String → String)
    (rows : List VariableBinding) : VariableMap :=
  Assoc.putAll []
    ((rows.filter (!·.variableText.isEmpty)).map fun b =>
      (resolve b.variableText, b.cell))

/-- A text that is no assignment. -/
structure BadAssignment where
  text : String
  deriving DecidableEq, Repr

/-- The wording of a failure. -/
def BadAssignment.message (e : BadAssignment) : String :=
  "Expected SYMBOL=CELL, got '" ++ e.text ++ "'"

/-- The symbol and the cell of an assignment: what stands in front of and behind the
first equals sign, without blanks at the ends. The symbol must not be empty. -/
def parseAssignment (text : String) : Except BadAssignment (String × String) :=
  let cs := text.toList
  let symbol := Text.trimChars (cs.takeWhile (· ≠ '='))
  match cs.dropWhile (· ≠ '=') with
  | [] => .error ⟨text⟩
  | _ :: cell =>
    if symbol.isEmpty then .error ⟨text⟩
    else .ok (String.ofList symbol, String.ofList (Text.trimChars cell))

/-- The map of assignments; the first text that is none makes it fail. -/
def parseAssignments (texts : List String) : Except BadAssignment VariableMap := do
  let pairs ← texts.mapM parseAssignment
  return Assoc.putAll [] pairs

end Formulary
