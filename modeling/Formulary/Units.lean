import Formulary.Text.Blank

/-!
# Units of a declaration

A declaration such as `v\left\lbrack m/s\right\rbrack` holds a variable and its units
in brackets.

## Main definitions

* `fragments` cuts a text at the bracket delimiters.
* `VariableUnits.ofDeclaration` splits a declaration.
-/

namespace Formulary

/-- A variable and its units. -/
structure VariableUnits where
  variableText : String
  units : String
  deriving DecidableEq, Repr

/-- The delimiters around units. -/
def unitDelimiters : List (List Char) :=
  ["\\left\\lbrack".toList, "\\right\\rbrack".toList, "\\right.".toList]

/-- The delimiter at the front of a text, if any. -/
def unitDelimiterAt? (cs : List Char) : Option (List Char) :=
  unitDelimiters.find? (·.isPrefixOf cs)

/-- Puts a character in front of the first of some texts. -/
def consFirst (c : Char) : List (List Char) → List (List Char)
  | [] => [[c]]
  | first :: rest => (c :: first) :: rest

/-- The pieces of a text between its delimiters, after the first `skip` characters,
which belong to a delimiter that was found before them. -/
def fragmentsFrom : (skip : Nat) → List Char → List (List Char)
  | _, [] => [[]]
  | skip + 1, _ :: cs => fragmentsFrom skip cs
  | 0, c :: cs =>
    match unitDelimiterAt? (c :: cs) with
    | some delimiter => [] :: fragmentsFrom (delimiter.length - 1) cs
    | none => consFirst c (fragmentsFrom 0 cs)

/-- The pieces of a text between its delimiters, from left to right. -/
def fragments (cs : List Char) : List (List Char) :=
  fragmentsFrom 0 cs

namespace VariableUnits

/-- Splits a declaration: the variable is what stands in front of the first
delimiter, and the units are the first piece after it that is not empty, without the
blanks at its ends. -/
def ofDeclaration (declaration : String) : VariableUnits :=
  match fragments declaration.toList with
  | [] => ⟨"", ""⟩
  | first :: rest =>
    ⟨String.ofList first,
      String.ofList (Text.trimChars ((rest.find? (!·.isEmpty)).getD []))⟩

end VariableUnits

end Formulary
