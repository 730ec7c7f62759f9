import Formulary.Formula.Table
import Formulary.Json.Basic
import Formulary.Template.Fill

/-!
# Formulas from expressions

An expression is a number, a symbol, or a list of a head and its arguments. It is
written as a formula by writing its arguments and then the head through its mapping.

## Main definitions

* `renderNode` writes an expression, and `formula` writes a whole formula.
* `canRender` tells whether an expression has a formula.

## Design notes

Faults are met in the order of writing: first the shape and the head of a list, then
its arguments from left to right, then what the mapping needs. `levels` counts the
levels of lists that may still be entered, so an expression that is nested too deeply
fails where the limit is met and not before.
-/

namespace Formulary

/-- The cells of symbols, by name. -/
abbrev VariableMap := List (String × String)

/-- The deepest nesting of an expression that is written. What limits the nesting is
the room for calls, and how many levels fit into it depends on where the calls start;
a fixed number of levels stands for it here, the same for every kind of list. -/
def expressionLimit : Nat := 300

namespace Formula

/-! ### Scalars -/

/-- The name of the constant for an infinity. -/
def infinityName (negative : Bool) : String :=
  if negative then "NegativeInfinity" else "PositiveInfinity"

/-- Writes a floating-point number; an infinity must be in the table. -/
def renderFloat (table : FormulaTable) (x : Binary64) :
    Except FormulaError (List Char) :=
  match x with
  | .finite _ _ _ => .ok x.text.toList
  | .infinity negative =>
    match table.constant? (infinityName negative) with
    | some text => .ok text.toList
    | none => .error (.unknownNode x.text)
  | .nan => .error (.unknownNode x.text)

/-- Writes a symbol: a constant, a cell, or the symbol itself. An empty cell does not
count. -/
def renderSymbol (table : FormulaTable) (vars : VariableMap)
    (name : String) : List Char :=
  match table.constant? name with
  | some text => text.toList
  | none =>
    match Assoc.lookup? name vars with
    | some cell => if cell.isEmpty then name.toList else cell.toList
    | none => name.toList

/-- Writes an integer; it must not have too many digits. -/
def renderInt (n : Int) : Except FormulaError (List Char) :=
  if Json.isShort n then .ok (toString n).toList else .error .tooManyDigits

/-- Refuses a value that is no expression. The message shows the value, so an integer
in it that cannot be written is what the failure is about. -/
def refuse (value : Json) : FormulaError :=
  if value.isDescribable then .unknownNode value.describe else .tooManyDigits

/-! ### Lists -/

/-- Texts with a separator between them. -/
def joined (separator : List Char) : List (List Char) → List Char
  | [] => []
  | [text] => text
  | text :: rest => text ++ separator ++ joined separator rest

/-- Writes a head with its written arguments; `inSubscript` tells that the place is a
subscript. -/
def applyMapping (m : Mapping) (inSubscript : Bool) (args : List (List Char)) :
    Except FormulaError (List Char) :=
  match m.renderer with
  | .join symbol =>
    match inSubscript, m.entry.subscriptSymbol with
    | true, some separator => .ok (joined separator.toList args)
    | _, _ => .ok ('(' :: (joined symbol.toList args ++ [')']))
  | .call name => .ok (name.toList ++ '(' :: (joined [','] args ++ [')']))
  | .template text =>
    match Template.fill text.toList args with
    | .ok filled => .ok filled
    | .error .missingArgument => .error (.tooFewArguments m.tag args.length)
    | .error e => .error (.badTemplate e)
  | .custom f =>
    match f (args.map String.ofList) with
    | .ok text => .ok text.toList
    | .error .missingArgument => .error (.tooFewArguments m.tag args.length)
    | .error (.failed e) => .error e

mutual

/-- Writes an expression that enters at most `levels` levels of lists. -/
def renderNode (table : FormulaTable) (vars : VariableMap) (levels : Nat)
    (inSubscript : Bool) :
    Json → Except FormulaError (List Char)
  | .int n => renderInt n
  | .float x => renderFloat table x
  | .string name => .ok (renderSymbol table vars name)
  | .array (.string head :: args) =>
    match table.mapping? head with
    | none => .error (.unsupported head)
    | some m =>
      match levels with
      | 0 => .error .tooDeep
      | levels + 1 => do
        let texts ← renderArgs table vars levels m 0 args
        applyMapping m inSubscript texts
  | value => .error (refuse value)

/-- Writes the arguments of a list, the first of which has the given number. -/
def renderArgs (table : FormulaTable) (vars : VariableMap) (levels : Nat) (m : Mapping)
    (number : Nat) : List Json → Except FormulaError (List (List Char))
  | [] => .ok []
  | arg :: rest => do
    let text ← renderNode table vars levels (m.isIndex number) arg
    let texts ← renderArgs table vars levels m (number + 1) rest
    return text :: texts

end

end Formula

/-- The formula of an expression. -/
def formula (table : FormulaTable) (vars : VariableMap) (expression : Json) :
    Except FormulaError String := do
  let text ← Formula.renderNode table vars expressionLimit false expression
  return String.ofList ('=' :: text)

/-- Whether an expression has a formula. A failure that does not say so is passed
on. -/
def canRender (table : FormulaTable) (vars : VariableMap) (expression : Json) :
    Except FormulaError Bool :=
  match formula table vars expression with
  | .ok _ => .ok true
  | .error e => if e.isAnswer then .ok false else .error e

end Formulary
