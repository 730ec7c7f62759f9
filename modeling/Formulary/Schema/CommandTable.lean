import Formulary.Command.Table
import Formulary.Json.Basic
import Formulary.Schema.TableError

/-!
# Command tables as data

A table may be given as data with named sections. A section lists names, in one list
or in several named ones; a void section lists none. The decorators are either listed
in two sections of their own, for accents and fonts, or are all accents.

## Main definitions

* `namesOfSection` lists the names in a section.
* `commandTableOfData` reads a command table.
-/

namespace Formulary.Schema

/-- The sections of data; void data has none. -/
def sectionsOf (data : Json) : Except TableError (List (String × Json)) :=
  if data.isVoid then .ok []
  else
    match data with
    | .object sections => .ok sections
    | _ => .error .notNamed

/-- The names that a piece of data lists: the items of a list, the characters of a
text or the field names of an object. -/
def listedNames : Json → Except TableError (List String)
  | .array items => .ok (items.map Json.text)
  | .string s => .ok (s.toList.map Char.toString)
  | .object fields => .ok (fields.map (·.1))
  | _ => .error .unusable

/-- The names that a piece of data lists; void data lists none. -/
def namesOfList (data : Json) : Except TableError (List String) :=
  if data.isVoid then .ok [] else listedNames data

/-- The names in a section, which may be divided into named lists. -/
def namesOfSection (data : Json) : Except TableError (List String) :=
  match data with
  | .object groups => (groups.mapM fun g => namesOfList g.2).map List.flatten
  | data => namesOfList data

/-- The section of a name; one that is not there is void. -/
def sectionNamed (name : String) (sections : List (String × Json)) : Json :=
  (Assoc.lookup? name sections).getD .null

/-- The sections of the decorators: a list that is not divided holds accents. -/
def decoratorSections (data : Json) : List (String × Json) :=
  if data.isVoid then []
  else
    match data with
    | .object sections => sections
    | accents => [("accents", accents)]

/-- The texts of named entries. -/
def entryTexts (entries : List (String × Json)) : List (String × String) :=
  entries.map fun e => (e.1, e.2.text)

/-- Reads a command table. -/
def commandTableOfData (data : Json) : Except TableError CommandTable := do
  let sections ← sectionsOf data
  let decorators := decoratorSections (sectionNamed "decorator_macros" sections)
  let letters ← namesOfSection (sectionNamed "variable_macros" sections)
  let accents ← namesOfSection (sectionNamed "accents" decorators)
  let fonts ← namesOfSection (sectionNamed "fonts" decorators)
  let constants ← namesOfSection (sectionNamed "known_constants" sections)
  let textual ← namesOfSection (sectionNamed "text_mode_macros" sections)
  let signatures ← sectionsOf (sectionNamed "macro_signatures" sections)
  return { letters, accents, fonts, constants, textual, signatures :=
    entryTexts signatures }

end Formulary.Schema
