import Formulary.Json.Basic
import Formulary.Template.Error

/-!
# Failures of formulas

## Main definitions

* `FormulaError` is why an expression has no formula, and `FormulaError.message` its
  wording.
* `FormulaError.isAnswer` tells the failures that say something about the expression.
-/

namespace Formulary

/-- Why an expression has no formula. -/
inductive FormulaError where
  /-- A value is neither a number nor a symbol nor a list with a head. -/
  | unknownNode (description : String)
  /-- A head has no mapping. -/
  | unsupported (head : String)
  /-- A head needs more arguments than the `count` that it has. -/
  | tooFewArguments (tag : String) (count : Nat)
  /-- The expression is nested too deeply. -/
  | tooDeep
  /-- An integer has too many digits to be written. -/
  | tooManyDigits
  /-- A template of the table cannot be filled in. -/
  | badTemplate (error : TemplateError)
  /-- A function of the table fails in a way of its own. -/
  | raised (message : String)
  deriving DecidableEq, Repr

namespace FormulaError

/-- The wording of a failure; some failures of templates have none. -/
def message : FormulaError → String
  | .unknownNode description => "Unknown node type: " ++ description
  | .unsupported head => "No Excel equivalent for operator \"" ++ head ++ "\""
  | .tooFewArguments tag count =>
    "Operator \"" ++ tag ++ "\" expects more than " ++ toString count ++ " argument(s)"
  | .tooDeep => "Expression is nested too deeply to convert"
  | .tooManyDigits =>
    "Exceeds the limit (" ++ toString Json.maxDigits ++
      " digits) for integer string conversion; use sys.set_int_max_str_digits() to increase the limit"
  | .badTemplate (.flawed flaw) => flaw.message
  | .badTemplate (.unknownName name) => Text.quoted name
  | .badTemplate _ => ""
  | .raised message => message

/-- Whether a failure is an answer: that the expression has no formula. The other
failures are those of a table, and that of an integer which is too long to be
written. -/
def isAnswer : FormulaError → Bool
  | .unknownNode _ | .unsupported _ | .tooFewArguments _ _ | .tooDeep => true
  | .tooManyDigits | .badTemplate _ | .raised _ => false

end FormulaError

end Formulary
