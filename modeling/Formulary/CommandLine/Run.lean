import Formulary.Cell.Reference
import Formulary.Command.Standard
import Formulary.CommandLine.Command
import Formulary.Equation.Parts
import Formulary.Json.Printer
import Formulary.Units
import Formulary.Variable.Extract

/-!
# Running commands

## Main definitions

* `Stream` is where a run prints, and may refuse a text.
* `Outcome` is what a run leaves behind.
* `Command.run` runs a command, and `runArguments` a whole command line.

## Design notes

A failure that a user can mend is written to the standard error, and the exit code is
one. The failures of a table that is itself wrong are left to the caller.

Printing a formula is part of the request, so a formula that cannot be printed is a
failure like any other. The other commands leave such a failure to the caller. The
standard error takes every text.
-/

namespace Formulary

/-- The parts of an equation as data. -/
def EquationParts.toJson (p : EquationParts) : Json :=
  .object [("declaration", .string p.declaration), ("body", .string p.body),
    ("constraint", .string p.constraint)]

/-- A variable and its units as data. -/
def VariableUnits.toJson (u : VariableUnits) : Json :=
  .object [("latex_var", .string u.variableText), ("units", .string u.units)]

/-- A cell reference as data. -/
def CellReference.toJson (c : CellReference) : Json :=
  .object [("row", .int c.row), ("col", .int c.col),
    ("is_row_absolute", .bool c.rowAbsolute), ("is_col_absolute", .bool c.colAbsolute)]

namespace CommandLine

/-- Where a run prints. A stream whose encoding lacks a character refuses the texts
that hold it, and nothing of them is written. -/
structure Stream where
  /-- Why a text cannot be written, if it cannot. -/
  refusal? : String → Option String := fun _ => none

/-- What a run leaves behind: the exit code and what was written. -/
structure Outcome where
  exit : Nat
  stdout : String := ""
  stderr : String := ""
  deriving DecidableEq, Repr

namespace Outcome

/-- A run that prints a line. -/
def printed (text : String) : Outcome := { exit := 0, stdout := text ++ "\n" }

/-- A run that complains. -/
def complaint (text : String) : Outcome := { exit := 1, stderr := "❌ " ++ text ++ "\n" }

/-- A run that finds no command. -/
def misuse : Outcome := { exit := 2 }

end Outcome

/-- Prints a line, if the stream takes it. -/
def print (stdout : Stream) (text : String) : Except RequestError Outcome :=
  match stdout.refusal? text with
  | none => .ok (.printed text)
  | some message => .error (.unprintable message)

/-- Reports the failure of a request, if it has a wording. -/
def reportFailure (e : RequestError) : Except RequestError Outcome :=
  match e.report? with
  | some text => .ok (.complaint text)
  | none => .error e

/-- Runs a request for a formula. -/
def runRequest (files : Files) (stdout : Stream) (request : FormulaRequest) :
    Except RequestError Outcome :=
  match request.formula files >>= print stdout with
  | .ok outcome => .ok outcome
  | .error e => reportFailure e

/-- Runs a command. -/
def Command.run (files : Files) (stdout : Stream) :
    Command → Except RequestError Outcome
  | .parts equation =>
    print stdout (EquationParts.ofSource CommandTable.standard equation).toJson.pretty
  | .vars source =>
    let names := Variable.variablesOfSource CommandTable.standard source
    print stdout (Json.array (names.map .string)).pretty
  | .units declaration =>
      print stdout (VariableUnits.ofDeclaration declaration).toJson.pretty
  | .cell address true => print stdout (CellReference.cycleAnchors address)
  | .cell address false =>
    match CellReference.parse address with
    | .ok reference => print stdout reference.toJson.pretty
    | .error e => .ok (.complaint e.message)
  | .formula request => runRequest files stdout request

/-- How to use the command line. -/
def usage : String :=
  "usage: formulary [-h] [--verbose] \x7bparts,vars,translate,cell,units\x7d ..."

/-- Runs a command line. -/
def runArguments (files : Files) (stdout : Stream) (arguments : List String) :
    Except RequestError Outcome :=
  match Command.ofArguments arguments with
  | .ok command => command.run files stdout
  | .error .usage => .ok { Outcome.misuse with stderr := usage ++ "\n" }
  | .error .help => print stdout usage

end CommandLine

end Formulary
