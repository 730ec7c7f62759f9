import Formulary.Formula.Table
import Formulary.Schema.CommandTable
import Formulary.Schema.Field

/-!
# Formula tables as data

A formula table may be given as data with sections for constants, operators and
functions. The name of an entry is its head, and the section its kind, so neither may
stand among the fields of the entry.

## Main definitions

* `mappingOfFields` reads a mapping from all its fields.
* `formulaTableOfData` reads a formula table.
* `algebraModeOfFields` reads an algebra mode.
-/

namespace Formulary.Schema

/-- The words for the kinds of mappings. -/
def mappingKinds : List (String × MappingKind) :=
  [("operator", .operator), ("function", .function)]

/-- The word for a kind of mapping. -/
def mappingKindWord : MappingKind → String
  | .operator => "operator"
  | .function => "function"

/-- Reads the kind of a mapping. -/
def readMappingKind (value : Json) : Checked MappingKind :=
  readAmong mappingKinds "'operator' or 'function'" value

/-- Data holds no functions: only null is allowed where one could stand. -/
def readCustom : Json → Checked (Option CustomRenderer)
  | .null => .ok none
  | _ => Checked.issue .notFunction

/-- The names of the fields of a mapping. -/
def mappingFields : List String :=
  ["tag", "kind", "symbol", "subscript_symbol", "name", "template",
    "custom", "index_arguments", "description"]

/-- Reads the fields of a mapping; `custom` is the function that belongs to them, if
any. -/
def entryOfFields (custom : Option CustomRenderer) (fields : List (String × Json)) :
    Checked MappingEntry :=
  let textOrNull := fun name => fieldOr none name (readNullable readString) fields
  let tagKind := (requiredField "tag" readString fields).both
    (requiredField "kind" readMappingKind fields)
  let operator := (textOrNull "symbol").both (textOrNull "subscript_symbol")
  let function := (textOrNull "name").both (textOrNull "template")
  let customField := fieldOr custom "custom" readCustom fields
  let others := (fieldOr [] "index_arguments" (readList readInt) fields).both
    (fieldOr "" "description" readString fields)
  ((((tagKind.both operator).both function).both customField).both
    (others.both (refuseOthers mappingFields fields))).map
    fun (((((tag, kind), (symbol, subscriptSymbol)), (name, template)), custom),
        ((indexArguments, description), _)) =>
      { tag, kind, symbol, subscriptSymbol, name, template, custom,
        indexArguments, description }

/-- Reads a mapping. -/
def mappingOfFields (custom : Option CustomRenderer) (fields : List (String × Json)) :
    Checked Mapping := do
  let entry ← entryOfFields custom fields
  match Mapping.ofEntry entry with
  | .ok m => .ok m
  | .error fault => Checked.issue (.inconsistent fault.message)

/-- The fields of an entry: void data has none. The tag and the kind must not be
among them. -/
def entryFields (data : Json) : Except TableError (List (String × Json)) :=
  if data.isVoid then .ok []
  else
    match data with
    | .object fields =>
      if fields.any fun f =>
        f.1 = "tag" || f.1 = "kind" then .error .unusable else .ok fields
    | _ => .error .unusable

/-- Reads an entry of a section and adds it to a table. -/
def addEntry (kind : MappingKind) (table : FormulaTable) (entry : String × Json) :
    Except TableError FormulaTable := do
  let fields ← entryFields entry.2
  let all := ("tag", Json.string entry.1) ::
    ("kind", .string (mappingKindWord kind)) :: fields
  let m ← (mappingOfFields none all).mapError TableError.invalid
  return table.addMapping m

/-- Reads a formula table. -/
def formulaTableOfData (data : Json) : Except TableError FormulaTable := do
  let sections ← sectionsOf data
  let constants ← sectionsOf (sectionNamed "constants" sections)
  let operators ← sectionsOf (sectionNamed "operators" sections)
  let table ← operators.foldlM (addEntry .operator)
      { constants := entryTexts constants }
  let functions ← sectionsOf (sectionNamed "functions" sections)
  functions.foldlM (addEntry .function) table

/-- Reads an algebra mode; each of its lists may be left out. -/
def algebraModeOfFields (fields : List (String × Json)) : Checked AlgebraMode :=
  let standard : AlgebraMode := {}
  let heads := fieldOr standard.heads "exclude_functions" (readList readString) fields
  let constants := fieldOr standard.constants "exclude_constants"
    (readList readString) fields
  (heads.both constants).map fun (heads, constants) => { heads, constants }

end Formulary.Schema
