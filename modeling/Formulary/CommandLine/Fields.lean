import Formulary.CommandLine.Run
import Formulary.Schema.Binding

/-!
# Commands as data

A command may also be given as data, with its name and its arguments as fields.

## Main definitions

* `FieldsFault` is what can be wrong with the fields.
* `runFields` reads a command from fields and runs it.

## Design notes

The fields of a command must all be there before anything else is looked at. The
values of a request for a formula are then used in their order, so what the values in
front of an unusable one ask for is read first, and may fail first.
-/

namespace Formulary.CommandLine

open Formulary.Schema

/-- What can be wrong with the fields of a command. -/
inductive FieldsFault where
  | missing (name : String)
  /-- A field holds a value of a kind that cannot be used there. -/
  | unusable
  /-- An assignment is no text. -/
  | unusableAssignment
  | invalid (issues : List Issue)
  deriving DecidableEq, Repr

/-- Why fields give no command: a fault, and the request that the values in front of
it make, if the command is a request. -/
structure FieldsError where
  fault : FieldsFault
  before : Option FormulaRequest := none
  deriving DecidableEq, Repr

/-- The value of a field that must be there. -/
def fieldNamed (name : String) (fields : List (String × Json)) :
    Except FieldsError Json :=
  match Assoc.lookup? name fields with
  | some value => .ok value
  | none => .error { fault := .missing name }

/-- A value that must be a text. -/
def textValue (before : Option FormulaRequest) : Json → Except FieldsError String
  | .string s => .ok s
  | _ => .error ⟨.unusable, before⟩

/-- The name of a file; a void value is none. -/
def fileValue (before : FormulaRequest) (value : Json) : Except FieldsError String :=
  if value.isVoid then .ok "" else textValue before value

/-- The assignments in a list; those in front of a value that is no text come before
it. -/
def assignmentItems (before : FormulaRequest) :
    List Json → Except FieldsError (List String)
  | [] => .ok before.assignments
  | .string s :: rest =>
    assignmentItems { before with assignments := before.assignments ++ [s] } rest
  | _ :: _ => .error ⟨.unusableAssignment, some before⟩

/-- The assignments of a request; a void value holds none. -/
def assignmentsValue (before : FormulaRequest) (value : Json) :
    Except FieldsError (List String) :=
  if value.isVoid then .ok []
  else
    match value with
    | .array items => assignmentItems before items
    | value => (listedNames value).mapError fun _ => ⟨.unusable, some before⟩

/-- Reads a request for a formula. -/
def requestOfFields (fields : List (String × Json)) :
    Except FieldsError FormulaRequest := do
  let expression ← fieldNamed "expression" fields
  let assignments ← fieldNamed "var" fields
  let cellFile ← fieldNamed "var_map" fields
  let tableFile ← fieldNamed "mappings" fields
  let algebra ← fieldNamed "algebra_mode" fields
  let request : FormulaRequest := { expression := ← textValue none expression }
  let request := { request with cellFile := ← fileValue request cellFile }
  let request := { request with assignments := ← assignmentsValue request assignments }
  let request := { request with tableFile := ← fileValue request tableFile }
  return { request with algebra := !algebra.isVoid }

/-- Reads the command of a name. -/
def namedCommand (fields : List (String × Json)) :
    CommandName → Except FieldsError Command
  | .parts => do
    let equation ← fieldNamed "equation" fields
    return .parts (← (equationText equation).mapError fun issues =>
      ⟨.invalid issues, none⟩)
  | .vars => do
    match ← fieldNamed "latex" fields with
    | .string source => return .vars source
    | _ => return .vars ""
  | .units => return .units (← textValue none (← fieldNamed "declaration" fields))
  | .cell => do
    let cycle ← fieldNamed "cycle" fields
    return .cell (← textValue none (← fieldNamed "ref" fields)) !cycle.isVoid
  | .formula => return .formula (← requestOfFields fields)

/-- Reads a command; a name that no command has gives none. -/
def commandOfFields (fields : List (String × Json)) :
    Except FieldsError (Option Command) := do
  match ← fieldNamed "command" fields with
  | .string name =>
    match CommandName.ofText? name with
    | some name => return some (← namedCommand fields name)
    | none => return none
  | _ => return none

/-- Why a command that is given as data cannot be run. -/
inductive RunError where
  | fields (fault : FieldsFault)
  | request (error : RequestError)
  deriving DecidableEq, Repr

/-- Runs a command that is given as data. -/
def runFields (files : Files) (stdout : Stream) (fields : List (String × Json)) :
    Except RunError Outcome :=
  match commandOfFields fields with
  | .ok (some command) => (command.run files stdout).mapError .request
  | .ok none => .ok .misuse
  | .error ⟨fault, none⟩ => .error (.fields fault)
  | .error ⟨fault, some before⟩ =>
    match before.parts files with
    | .ok _ => .error (.fields fault)
    | .error e => (reportFailure e).mapError .request

end Formulary.CommandLine
