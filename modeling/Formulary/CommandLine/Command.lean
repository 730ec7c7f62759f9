import Formulary.CommandLine.Word
import Formulary.Formula.Request

/-!
# Commands

The command line asks for one command, with a subject and options.

## Main definitions

* `Command` is what can be asked for.
* `Command.ofArguments` understands the arguments of the command line.
-/

namespace Formulary.CommandLine

/-- What the command line can be asked for. -/
inductive Command where
  /-- Split an equation. -/
  | parts (equation : String)
  /-- List variables. -/
  | vars (source : String)
  /-- Split a declaration. -/
  | units (declaration : String)
  /-- Read the address of a cell, or advance its anchors. -/
  | cell (address : String) (cycle : Bool)
  /-- Give the formula of an expression. -/
  | formula (request : FormulaRequest)
  deriving DecidableEq, Repr

/-- The names of the commands. -/
inductive CommandName where
  | parts
  | vars
  | units
  | cell
  | formula
  deriving DecidableEq, Repr

namespace CommandName

/-- The command of a name. -/
def ofText? : String → Option CommandName
  | "parts" => some .parts
  | "vars" => some .vars
  | "units" => some .units
  | "cell" => some .cell
  | "translate" => some .formula
  | _ => none

/-- The options of a command. -/
def switches (name : CommandName) : Switches :=
  ("-h".toList, .help) :: ("--help".toList, .help) ::
    match name with
    | .parts | .vars | .units => []
    | .cell => [("--cycle".toList, .cycle)]
    | .formula =>
      [("--var".toList, .assign), ("--var-map".toList, .cellFile),
        ("--mappings".toList, .tableFile), ("--algebra-mode".toList, .algebra)]

end CommandName

/-- The options in front of the command. -/
def leadingSwitches : Switches :=
  [("-h".toList, .help), ("--help".toList, .help), ("--verbose".toList, .verbose),
    ("-v".toList, .verbose)]

/-! ### Flags -/

/-- The flags that are written together behind one dash. Each character has to name
one. -/
def tailFlags (known : Switches) : List Char → Except Refusal (List Switch)
  | [] => .ok []
  | c :: rest =>
    match switchNamed? known ['-', c] with
    | none => .error .usage
    | some switch => (tailFlags known rest).map (switch :: ·)

/-- The flags that an option without a value stands for. -/
def flagsOf (known : Switches) (switch : Switch) :
    Attached → Except Refusal (List Switch)
  | .nothing => .ok [switch]
  | .value _ => .error .usage
  | .tail cs => (tailFlags known cs).map (switch :: ·)

/-- Reads an option without a value, unless it asks for help. All the flags behind
one dash are read before any of them counts. -/
def readFlags (known : Switches) (switch : Switch) (attached : Attached) :
    Except Refusal (List Switch) := do
  let flags ← flagsOf known switch attached
  if flags.contains .help then .error .help else return flags

/-! ### The arguments of a command -/

/-- What the arguments of a command hold. -/
structure Found where
  subject : Option String := none
  /-- The options in order, with their values if they have some. -/
  options : List (Switch × String) := []
  /-- Whether an argument has no place. -/
  surplus : Bool := false

namespace Found

/-- Adds a plain word: the first one is the subject, and others have no place. -/
def addPlain (f : Found) (text : String) : Found :=
  if f.subject.isNone then { f with subject := some text }
    else { f with surplus := true }

/-- Adds an option. -/
def addOption (f : Found) (switch : Switch) (value : String) : Found :=
  { f with options := f.options ++ [(switch, value)] }

/-- Adds flags. -/
def addFlags (f : Found) (flags : List Switch) : Found :=
  { f with options := f.options ++ flags.map (·, "") }

/-- Whether a flag is among the options. -/
def has (f : Found) (switch : Switch) : Bool :=
  f.options.any (·.1 = switch)

/-- The values of an option, in order. -/
def values (f : Found) (switch : Switch) : List String :=
  (f.options.filter (·.1 = switch)).map (·.2)

/-- The last value of an option, or the empty text. -/
def lastValue (f : Found) (switch : Switch) : String :=
  ((f.values switch).getLast?).getD ""

end Found

/-- Collects words. A divider has its place next to the subject. -/
def collect (known : Switches) (f : Found) : List Word → Except Refusal Found
  | [] => .ok f
  | .plain text :: .divider :: rest => collect known (f.addPlain text) rest
  | .plain text :: rest => collect known (f.addPlain text) rest
  | .divider :: rest =>
      collect known { f with surplus := f.surplus || f.subject.isSome } rest
  | .unknown :: rest => collect known { f with surplus := true } rest
  | .option switch attached :: rest =>
    if switch.takesValue then
      match attached, rest with
      | .value value, rest =>
          collect known (f.addOption switch (String.ofList value)) rest
      | .nothing, .plain value :: rest => collect known (f.addOption switch value) rest
      | _, _ => .error .usage
    else
      match readFlags known switch attached with
      | .ok flags => collect known (f.addFlags flags) rest
      | .error e => .error e

/-- The command with what its arguments hold; `subject` is the subject. -/
def Found.command (f : Found) (subject : String) : CommandName → Command
  | .parts => .parts subject
  | .vars => .vars subject
  | .units => .units subject
  | .cell => .cell subject (f.has .cycle)
  | .formula =>
    .formula {
      expression := subject
      assignments := f.values .assign
      cellFile := f.lastValue .cellFile
      tableFile := f.lastValue .tableFile
      algebra := f.has .algebra }

/-- Understands the arguments of a command. -/
def readCommand (name : CommandName) (arguments : List String) :
    Except Refusal Command := do
  let words ← readWords name.switches arguments
  let found ← collect name.switches {} words
  match found.subject, found.surplus with
  | some subject, false => return found.command subject name
  | _, _ => .error .usage

/-! ### The whole command line -/

/-- Finds the command behind the leading options. The first plain word is its name,
and what follows are its arguments. `surplus` tells that an argument in front of it
has no place. -/
def findCommand (surplus : Bool) : List (String × Word) → Except Refusal Command
  | [] => .error .usage
  | (_, .option switch attached) :: rest =>
    match readFlags leadingSwitches switch attached with
    | .ok _ => findCommand surplus rest
    | .error e => .error e
  | (_, .unknown) :: rest => findCommand true rest
  | (_, .divider) :: _ => .error .usage
  | (_, .plain name) :: rest =>
    match CommandName.ofText? name with
    | none => .error .usage
    | some name => do
      let command ← readCommand name (rest.map (·.1))
      if surplus then .error .usage else return command

/-- Understands the arguments of the command line. -/
def Command.ofArguments (arguments : List String) : Except Refusal Command := do
  let words ← readWords leadingSwitches arguments
  findCommand false (arguments.zip words)

end Formulary.CommandLine
