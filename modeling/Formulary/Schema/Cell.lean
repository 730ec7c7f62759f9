import Formulary.Cell.Reference
import Formulary.Schema.Field

/-!
# Cell references as data

## Main definitions

* `cellOfFields` reads a cell reference from its fields.
-/

namespace Formulary.Schema

/-- Reads a row or column number: an integer from one to `greatest`. -/
def readPosition (greatest : Nat) (value : Json) :
    Checked { n : Nat // 1 ≤ n ∧ n ≤ greatest } := do
  let n ← readInt value
  if h : 1 ≤ n.toNat ∧ n.toNat ≤ greatest then return ⟨n.toNat, h⟩
  else if n < 1 then Checked.issue (.below 1)
  else Checked.issue (.above greatest)

/-- Reads a cell reference; the anchors may be left out. -/
def cellOfFields (fields : List (String × Json)) : Checked CellReference :=
  let row := requiredField "row" (readPosition maxRow) fields
  let col := requiredField "col" (readPosition maxColumn) fields
  let rowAbsolute := fieldOr false "is_row_absolute" readBool fields
  let colAbsolute := fieldOr false "is_col_absolute" readBool fields
  ((row.both col).both (rowAbsolute.both colAbsolute)).map
    fun ((row, col), (rowAbs, colAbs)) =>
    ⟨row.1, col.1, rowAbs, colAbs, row.2, col.2⟩

end Formulary.Schema
