import Formulary.Cell.Column
import Formulary.Text.Digit

/-!
# Cell references

An address such as `A1` names a cell by its column and its row. A dollar sign in
front of either part anchors it. The sheet has 16384 columns, of which `XFD` is the
last, and 1048576 rows.

## Main definitions

* `CellReference` is a cell of the sheet with its two anchors.
* `CellReference.parse` reads an address and `CellReference.format` writes it.
* `CellReference.cycleAnchors` advances the anchors of an address.

## Design notes

The bounds of the sheet are part of the type, so a reference always has an address.
Reading first checks the spelling alone; only an address that is spelled right can be
out of bounds, and its column is checked before its row.
-/

namespace Formulary

/-- The number of rows of a sheet. -/
def maxRow : Nat := 1048576

/-- The number of columns of a sheet. -/
def maxColumn : Nat := 16384

/-- A cell of the sheet and whether its column and its row are anchored. -/
structure CellReference where
  row : Nat
  col : Nat
  rowAbsolute : Bool
  colAbsolute : Bool
  row_bounds : 1 ≤ row ∧ row ≤ maxRow
  col_bounds : 1 ≤ col ∧ col ≤ maxColumn
  deriving DecidableEq

namespace CellReference

/-! ### Writing -/

/-- The sign of an anchored part. -/
def anchorSign (absolute : Bool) : List Char :=
  if absolute then ['$'] else []

/-- The characters of the address of a cell. -/
def formatChars (cell : CellReference) : List Char :=
  anchorSign cell.colAbsolute ++ Column.letters cell.col ++
    anchorSign cell.rowAbsolute ++
    Nat.toDigits 10 cell.row

/-- The address of a cell. -/
def format (cell : CellReference) : String :=
  String.ofList cell.formatChars

/-! ### Reading -/

/-- The parts of an address that is spelled right. -/
structure Spelling where
  colAbsolute : Bool
  letters : List Char
  rowAbsolute : Bool
  digits : List Char
  deriving DecidableEq, Repr

/-- Takes the sign of an anchor off the front of a text. -/
def takeAnchor : List Char → Bool × List Char
  | '$' :: rest => (true, rest)
  | cs => (false, cs)

/-- Whether a row number is spelled right: one to seven digits, of which the first is
not zero. -/
def isRowSpelling (cs : List Char) : Bool :=
  cs.all Char.isDigit && 1 ≤ cs.length && cs.length ≤ 7 && cs.head? ≠ some '0'

/-- The parts of an address: one to three capital letters and a row number, each with
or without an anchor in front. -/
def spelling? (address : List Char) : Option Spelling :=
  let (colAbsolute, afterColSign) := takeAnchor address
  let letters := afterColSign.takeWhile Char.isUpper
  let (rowAbsolute, digits) := takeAnchor (afterColSign.dropWhile Char.isUpper)
  if 1 ≤ letters.length ∧ letters.length ≤ 3 ∧ isRowSpelling digits then
    some ⟨colAbsolute, letters, rowAbsolute, digits⟩
  else none

/-- The cell with a given column and row, if the sheet has both. -/
def ofNumbers (s : Spelling) (col row : Nat) : Except CellError CellReference :=
  if hc : 1 ≤ col ∧ col ≤ maxColumn then
    if hr : 1 ≤ row ∧ row ≤
      maxRow then .ok ⟨row, col, s.rowAbsolute, s.colAbsolute, hr, hc⟩
    else .error (.rowPastEnd row)
  else .error (.columnPastEnd (String.ofList s.letters) col)

/-- Reads the address of a cell. -/
def parse (address : String) : Except CellError CellReference :=
  match spelling? address.toList with
  | none => .error (.badSyntax address)
  | some s => do
    let col ← Column.number s.letters
    ofNumbers s col (Text.digitsValue s.digits)

/-- Whether a text is the address of a cell. -/
def isValid (address : String) : Bool :=
  match parse address with
  | .ok _ => true
  | .error _ => false

/-! ### Anchors -/

/-- The next anchors, of the column and of the row: none, both, the row alone, the
column alone, and none again. -/
def nextAnchors : Bool × Bool → Bool × Bool
  | (false, false) => (true, true)
  | (true, true) => (false, true)
  | (false, true) => (true, false)
  | (true, false) => (false, false)

/-- The same cell with the next anchors. -/
def nextAnchored (cell : CellReference) : CellReference :=
  let anchors := nextAnchors (cell.colAbsolute, cell.rowAbsolute)
  { cell with colAbsolute := anchors.1, rowAbsolute := anchors.2 }

/-- Advances the anchors of an address; a text that is no address stays as it is. -/
def cycleAnchors (address : String) : String :=
  match parse address with
  | .ok cell => cell.nextAnchored.format
  | .error _ => address

/-- The texts after one, two, ... up to `times` advances of the anchors. -/
def cycles (address : String) : (times : Nat) → List String
  | 0 => []
  | times + 1 => cycleAnchors address :: cycles (cycleAnchors address) times

end CellReference

end Formulary
