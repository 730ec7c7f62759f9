import Formulary.Assoc
import Formulary.Text.Blank

/-!
# Command tables

What the reader of markup and the naming of variables know about control sequences:
which ones name a letter, which decorate their argument, which identities are
constants, which arguments are plain text, and how many arguments of what shape
follow a command.

## Main definitions

* `Slot` is the shape of one argument.
* `CommandTable` is a table of commands.
* `CommandTable.signature` and `CommandTable.slots` give the arguments that a command
  takes.
-/

namespace Formulary

/-- The shape of an argument that a command takes. -/
inductive Slot where
  /-- A group in braces or a single token. -/
  | mandatory
  /-- A bracketed argument, which may be left out. -/
  | optional
  /-- A delimiter: a single character or control sequence. -/
  | delimiter
  deriving DecidableEq, Repr

/-- The shape that a word of a signature asks for. -/
def Slot.ofWord (word : String) : Slot :=
  if word = "o" then .optional else if word = "d" then .delimiter else .mandatory

/-- A table of commands, by name and without the backslash; constants are listed by
identity. -/
structure CommandTable where
  /-- Commands that name a letter. -/
  letters : List String := []
  /-- Accents, which make a new letter of their argument. -/
  accents : List String := []
  /-- Fonts, which make a new letter of their argument. -/
  fonts : List String := []
  /-- Identities that are constants. -/
  constants : List String := []
  /-- Commands whose argument is plain text. -/
  textual : List String := []
  /-- The signatures of commands, as texts of words. -/
  signatures : List (String × String) := []
  deriving DecidableEq, Repr

namespace CommandTable

/-- The table without entries. -/
def empty : CommandTable := {}

/-- Whether a command names a letter. -/
def isLetter (t : CommandTable) (name : String) : Bool :=
  t.letters.contains name

/-- Whether a command makes a new letter of its argument. -/
def isDecorator (t : CommandTable) (name : String) : Bool :=
  t.accents.contains name || t.fonts.contains name

/-- Whether an identity is a constant. -/
def isConstant (t : CommandTable) (identity : String) : Bool :=
  t.constants.contains identity

/-- Whether the argument of a command is plain text. -/
def isTextual (t : CommandTable) (name : String) : Bool :=
  t.textual.contains name

/-- The words of a command's signature. A command without an entry takes one argument
if it is a decorator or takes text, and none otherwise. -/
def signature (t : CommandTable) (name : String) : List String :=
  match Assoc.lookup? name t.signatures with
  | some spec => Text.words spec
  | none => if t.isDecorator name || t.isTextual name then ["m"] else []

/-- The arguments that a command takes, in order. -/
def slots (t : CommandTable) (name : String) : List Slot :=
  (t.signature name).map Slot.ofWord

/-- The table in which the given identities are constants too. -/
def withConstants (t : CommandTable) (constants : List String) : CommandTable :=
  { t with constants := t.constants ++ constants }

end CommandTable

end Formulary
