import Formulary.Text.Digit

/-!
# Words of a command line

A command line is a list of arguments. Each is a plain word, an option, or the
divider `--`, after which all arguments are plain words. What counts as an option
hangs on the options that are known at the place, so reading is relative to them.

## Main definitions

* `Word` is an argument as it is understood.
* `readWords` understands a list of arguments.

## Design notes

A long option may be shortened as long as only one option starts that way, but an
option that is written out is always meant. A negative number and a text with a blank
in it are plain words even if they start with a dash, unless they start like an
option.
-/

namespace Formulary.CommandLine

/-- The options of the command line. -/
inductive Switch where
  | help
  | verbose
  | cycle
  | assign
  | cellFile
  | tableFile
  | algebra
  deriving DecidableEq, Repr

/-- Whether an option has a value. -/
def Switch.takesValue : Switch → Bool
  | .assign | .cellFile | .tableFile => true
  | .help | .verbose | .cycle | .algebra => false

/-- The options that are known at a place, by their spelling with the dashes. -/
abbrev Switches := List (List Char × Switch)

/-- Why there is no command to run: the arguments make none, or help was asked
for. -/
inductive Refusal where
  | usage
  | help
  deriving DecidableEq, Repr

/-- What is written behind an option in the same argument. -/
inductive Attached where
  | nothing
  /-- Characters that follow a short option. -/
  | tail (text : List Char)
  /-- What follows the equals sign behind a long option, or nothing behind an equals
  sign. -/
  | value (text : List Char)
  deriving DecidableEq, Repr

/-- An argument as it is understood. -/
inductive Word where
  | plain (text : String)
  | divider
  /-- An option that is spelled out or shortened, with what is attached to it. -/
  | option (switch : Switch) (attached : Attached)
  /-- A word that looks like an option, but is none. -/
  | unknown
  deriving DecidableEq, Repr

/-! ### Options -/

/-- The option of a given spelling. -/
def switchNamed? (known : Switches) (name : List Char) : Option Switch :=
  (known.find? (·.1 = name)).map (·.2)

/-- The part of an argument in front of the first equals sign, and what is attached
by it. -/
def splitValue (cs : List Char) : List Char × Attached :=
  match cs.dropWhile (· ≠ '=') with
  | [] => (cs, .nothing)
  | _ :: value => (cs.takeWhile (· ≠ '='), .value value)

/-- Whether the spelling of an option has a single dash. -/
def isShort (name : List Char) : Bool :=
  name.drop 1 |>.head? |>.any (· ≠ '-')

/-- What an equals sign attaches to the option `name`. Behind a short option it is
passed over, and more characters follow. -/
def attachedTo (name : List Char) : Attached → Attached
  | .value (c :: cs) => if isShort name then .tail (c :: cs) else .value (c :: cs)
  | attached => attached

/-- The options that an argument may stand for: the long ones that start like it, or
the short one that it starts with. -/
def candidates (known : Switches) (cs : List Char) : List Word :=
  if isShort cs then
    known.filterMap fun (name, switch) =>
      if name = cs.take 2 then some (.option switch (.tail (cs.drop 2))) else none
  else
    let (front, attached) := splitValue cs
    known.filterMap fun (name, switch) =>
      if front.isPrefixOf name then some (.option switch attached) else none

/-! ### Plain words -/

/-- Whether characters are decimal digits, at least one. -/
def areDigits (cs : List Char) : Bool :=
  !cs.isEmpty && cs.all fun c => (Text.decimalValue? c).isSome

/-- The characters without a line feed at the end. -/
def withoutLastLineFeed (cs : List Char) : List Char :=
  if cs.getLast? = some '\n' then cs.dropLast else cs

/-- Whether an argument is written like a negative number: a dash and digits,
possibly with a point in front of some of them. -/
def isNegativeNumber : List Char → Bool
  | '-' :: rest =>
    let cs := withoutLastLineFeed rest
    let whole := cs.takeWhile (· ≠ '.')
    match cs.dropWhile (· ≠ '.') with
    | [] => areDigits whole
    | _ :: fraction => (whole.isEmpty || areDigits whole) && areDigits fraction
  | _ => false

/-! ### Words -/

/-- Understands an argument that starts with a dash and has more characters. -/
def readDashed (known : Switches) (text : String) : Except Refusal Word :=
  let cs := text.toList
  let (front, attached) := splitValue cs
  match switchNamed? known cs, switchNamed? known front with
  | some switch, _ => .ok (.option switch .nothing)
  | none, some switch => .ok (.option switch (attachedTo front attached))
  | none, none =>
    match candidates known cs with
    | [word] => .ok word
    | _ :: _ :: _ => .error .usage
    | [] => .ok (if isNegativeNumber cs ||
        cs.contains ' ' then .plain text else .unknown)

/-- Understands an argument. -/
def readWord (known : Switches) (text : String) : Except Refusal Word :=
  match text.toList with
  | '-' :: _ :: _ => readDashed known text
  | _ => .ok (.plain text)

/-- Understands a list of arguments. -/
def readWords (known : Switches) : List String → Except Refusal (List Word)
  | [] => .ok []
  | text :: rest =>
    if text = "--" then .ok (.divider :: rest.map .plain)
    else do
      let word ← readWord known text
      let words ← readWords known rest
      return word :: words

end Formulary.CommandLine
