/-!
# Failures of cell addresses

## Main definitions

* `CellError` is the reason why a text names no cell, or a number no column.
-/

namespace Formulary

/-- Why a text is no cell address, or a number no column. -/
inductive CellError where
  /-- The text is not spelled like an address. -/
  | badSyntax (address : String)
  /-- A character of a column name is not one of `A` to `Z`. -/
  | badLetter (c : Char)
  /-- The column lies past the last one. -/
  | columnPastEnd (letters : String) (number : Nat)
  /-- A column number must be positive. -/
  | columnNotPositive (number : Int)
  /-- The row lies past the last one. -/
  | rowPastEnd (row : Nat)
  deriving DecidableEq, Repr

/-- The wording of a failure. -/
def CellError.message : CellError → String
  | .badSyntax address => "Invalid cell address syntax: '" ++ address ++ "'"
  | .badLetter c => "Invalid column letter '" ++ c.toString ++ "'"
  | .columnPastEnd letters number =>
    "Column out of bounds: '" ++ letters ++ "' -> " ++ toString number
  | .columnNotPositive number => "Column out of bounds: " ++ toString number
  | .rowPastEnd row => "Row out of bounds: " ++ toString row

end Formulary
