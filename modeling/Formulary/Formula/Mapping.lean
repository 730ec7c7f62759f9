import Formulary.Assoc
import Formulary.Formula.Error

/-!
# Mappings from heads to formula text

A mapping says how an expression with a certain head is written in a formula: its
arguments joined by a symbol, as a function call, through a template, or by a
function of the library's user.

## Main definitions

* `CustomRenderer` is a function of the library's user, which may fail.
* `MappingEntry` holds the fields of a mapping.
* `Renderer` is the way of writing that an entry asks for.
* `Mapping` is an entry that asks for exactly one.
-/

namespace Formulary

/-- The kinds of mappings. -/
inductive MappingKind where
  | operator
  | function
  deriving DecidableEq, Repr

/-- Why a function of the library's user writes nothing. -/
inductive CustomFailure where
  /-- It needs an argument that is not there. -/
  | missingArgument
  /-- It fails with an error of its own, which is passed on. -/
  | failed (error : FormulaError)
  deriving DecidableEq, Repr

/-- A way of writing that is given as a function of the written arguments. -/
abbrev CustomRenderer := List String → Except CustomFailure String

/-- The fields of a mapping. -/
structure MappingEntry where
  tag : String
  kind : MappingKind
  /-- What joins the arguments of an operator. -/
  symbol : Option String := none
  /-- What joins the arguments of an operator inside of a subscript. -/
  subscriptSymbol : Option String := none
  /-- The name of a function. -/
  name : Option String := none
  /-- The template of a function. -/
  template : Option String := none
  custom : Option CustomRenderer := none
  /-- The numbers of the arguments that are subscripts. -/
  indexArguments : List Int := []
  description : String := ""

/-- A way of writing an expression from its written arguments. -/
inductive Renderer where
  /-- The arguments joined by a symbol, in parentheses. -/
  | join (symbol : String)
  /-- A call of a function. -/
  | call (name : String)
  /-- A template filled in with the arguments. -/
  | template (text : String)
  | custom (f : CustomRenderer)

/-- Why an entry does not ask for exactly one way of writing. -/
inductive ShapeFault where
  | needsSymbol (tag : String)
  | needsOneRenderer (tag : String)
  deriving DecidableEq, Repr

/-- The wording of a fault. -/
def ShapeFault.message : ShapeFault → String
  | .needsSymbol tag => "Operator mapping '" ++ tag ++ "' needs a symbol"
  | .needsOneRenderer tag =>
    "Function mapping '" ++ tag ++ "' needs exactly one of name, template or custom"

/-- The way of writing that an entry asks for. -/
def MappingEntry.renderer (e : MappingEntry) : Except ShapeFault Renderer :=
  match e.kind with
  | .operator =>
    match e.symbol with
    | some symbol => .ok (.join symbol)
    | none => .error (.needsSymbol e.tag)
  | .function =>
    match e.name, e.template, e.custom with
    | some name, none, none => .ok (.call name)
    | none, some text, none => .ok (.template text)
    | none, none, some f => .ok (.custom f)
    | _, _, _ => .error (.needsOneRenderer e.tag)

/-- An entry that asks for exactly one way of writing. -/
structure Mapping where
  entry : MappingEntry
  renderer : Renderer
  renderer_eq : entry.renderer = .ok renderer

namespace Mapping

/-- The mapping of an entry. -/
def ofEntry (e : MappingEntry) : Except ShapeFault Mapping :=
  match h : e.renderer with
  | .ok renderer => .ok ⟨e, renderer, h⟩
  | .error fault => .error fault

/-- An operator. -/
def operator (tag symbol : String) (subscriptSymbol : Option String) : Mapping where
  entry := { tag, kind := .operator, symbol := some symbol, subscriptSymbol }
  renderer := .join symbol
  renderer_eq := rfl

/-- A function that is called by name. -/
def call (tag name : String) : Mapping where
  entry := { tag, kind := .function, name := some name }
  renderer := .call name
  renderer_eq := rfl

/-- A function that is written through a template. -/
def template (tag text : String) (indexArguments : List Int) : Mapping where
  entry := { tag, kind := .function, template := some text, indexArguments }
  renderer := .template text
  renderer_eq := rfl

/-- The head that a mapping is for. -/
def tag (m : Mapping) : String := m.entry.tag

/-- Whether a mapping is that of an operator. -/
def isOperator (m : Mapping) : Bool := m.entry.kind = .operator

/-- Whether the argument with a given number is a subscript. -/
def isIndex (m : Mapping) (number : Nat) : Bool :=
  m.entry.indexArguments.contains number

end Mapping

end Formulary
