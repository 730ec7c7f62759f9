import Formulary.Formula.Mapping

/-!
# Formula tables

A formula table holds the constants and the mappings that turn expressions into
formulas.

## Main definitions

* `FormulaTable` is a table, and `FormulaTable.without` removes entries.
* `AlgebraMode` names the entries that are plain symbols in algebra.
-/

namespace Formulary

/-- The constants, as formula text by name, and the mappings by head. -/
structure FormulaTable where
  constants : List (String × String) := []
  mappings : List (String × Mapping) := []

namespace FormulaTable

/-- The table without entries. -/
def empty : FormulaTable := {}

/-- The formula text of a constant. -/
def constant? (t : FormulaTable) (name : String) : Option String :=
  Assoc.lookup? name t.constants

/-- The mapping of a head. -/
def mapping? (t : FormulaTable) (head : String) : Option Mapping :=
  Assoc.lookup? head t.mappings

/-- Whether a head has a mapping. -/
def supports (t : FormulaTable) (head : String) : Bool :=
  (t.mapping? head).isSome

/-- Adds a mapping, or replaces the one of the same head. -/
def addMapping (m : Mapping) (t : FormulaTable) : FormulaTable :=
  { t with mappings := Assoc.put m.tag m t.mappings }

/-- Adds a constant, or replaces the one of the same name. -/
def addConstant (name value : String) (t : FormulaTable) : FormulaTable :=
  { t with constants := Assoc.put name value t.constants }

/-- The table without the given heads and constants. -/
def without (t : FormulaTable) (heads constants : List String) : FormulaTable where
  constants := Assoc.without constants t.constants
  mappings := Assoc.without heads t.mappings

/-- A head that is taken out has no mapping any more, and all others keep theirs. -/
theorem mapping?_without (t : FormulaTable)
    (heads constants : List String) (head : String) :
    (t.without heads constants).mapping? head =
      if head ∈ heads then none else t.mapping? head := by
  unfold mapping? without
  rw [Assoc.lookup?_without]
  simp only [List.contains_iff_mem]

/-- A constant that is taken out is unknown, and all others keep their text. -/
theorem constant?_without (t : FormulaTable)
    (heads constants : List String) (name : String) :
    (t.without heads constants).constant? name =
      if name ∈ constants then none else t.constant? name := by
  unfold constant? without
  rw [Assoc.lookup?_without]
  simp only [List.contains_iff_mem]

end FormulaTable

/-- The heads and constants that are plain symbols in algebra. -/
structure AlgebraMode where
  heads : List String := ["D", "N"]
  constants : List String := ["CatalanConstant", "GoldenRatio", "EulerGamma"]
  deriving DecidableEq, Repr

/-- The table without the entries that are plain symbols in algebra. -/
def AlgebraMode.apply (mode : AlgebraMode) (t : FormulaTable) : FormulaTable :=
  t.without mode.heads mode.constants

end Formulary
