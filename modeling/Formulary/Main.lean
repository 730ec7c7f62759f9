import Formulary.CommandLine.Run

/-!
# The program

Reads the files that a request names, runs the command line and writes what it leaves
behind. A table is a JSON document.
-/

namespace Formulary.CommandLine

/-- The bytes of a file, if it can be read. -/
def readBytes? (name : String) : IO (Option (List UInt8)) := do
  try
    return some (← IO.FS.readBinFile name).toList
  catch _ =>
    return none

/-- The text of a file, if it can be read. -/
def readText? (name : String) : IO (Option String) := do
  try
    return some (← IO.FS.readFile name)
  catch _ =>
    return none

/-- The data of a table. -/
def readTable (text : String) : IO Json :=
  match Json.read text with
  | .ok data => return data
  | .error e => throw (IO.userError e.message)

/-- The files that a command names. -/
def filesOf : Except Refusal Command → IO Files
  | .ok (.formula request) => do
    let cells ← readBytes? request.cellFile
    let table ← readText? request.tableFile
    let data ← table.mapM readTable
    return Files.ofContents (fun _ => cells) (fun _ => data)
  | _ => return Files.none

end Formulary.CommandLine

open Formulary.CommandLine

/-- Runs the command line. -/
def main (arguments : List String) : IO UInt32 := do
  let files ← filesOf (Command.ofArguments arguments)
  match runArguments files {} arguments with
  | .ok outcome =>
    (← IO.getStdout).putStr outcome.stdout
    (← IO.getStderr).putStr outcome.stderr
    return outcome.exit.toUInt32
  | .error _ =>
    (← IO.getStderr).putStr "The table cannot be used.\n"
    return 1
