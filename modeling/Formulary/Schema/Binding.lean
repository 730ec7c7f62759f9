import Formulary.Formula.Binding
import Formulary.Schema.Field

/-!
# Rows of the panel as data

## Main definitions

* `bindingOfFields` reads a row of the panel.
* `equationText` reads the text of an equation.
-/

namespace Formulary.Schema

/-- Reads a row of the panel; every text may be left out, and blanks at the ends are
removed. -/
def bindingOfFields (fields : List (String × Json)) : Checked VariableBinding :=
  let text := fun name => fieldOr "" name readString fields
  ((text "latex_var").both ((text "units").both (text "excel_var"))).map
    fun (variableText, (units, cell)) =>
      VariableBinding.trimmed ⟨variableText, units, cell⟩

/-- The text of an equation: void data is the empty text. Other data that is no text
could only be the body of an equation, which it cannot. -/
def equationText (value : Json) : Checked String :=
  if value.isVoid then .ok "" else (readString value).under (.field "body")

end Formulary.Schema
