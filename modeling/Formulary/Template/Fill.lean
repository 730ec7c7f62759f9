import Formulary.Template.Padding

/-!
# Filling in templates

A template is a text with fields in braces, such as `({0}^(1/{1}))`. Filling it in
replaces each field by an argument: the one whose number the field names or, in a
template whose fields have no numbers, the next one. A doubled brace stands for a
brace.

A field may go on after its number: `[k]` takes a single character of the argument,
`!r` and `!a` quote it, and a colon starts a layout, which may hold fields of its
own.

## Main definitions

* `Piece` is a character or a field of a template.
* `Template.pieces` cuts a template into pieces, up to the first flaw.
* `Template.fill` fills in a template.

## Design notes

Filling goes from left to right and the first problem met is the one reported. So
cutting does not fail: it gives the pieces in front of the first flaw together with
the flaw, which is reported when filling gets there.
-/

namespace Formulary

/-- A field of a template: its name with its accessors, its conversion and its
layout. -/
structure TemplateField where
  name : List Char
  conversion : Option Char
  padding : List Char
  deriving DecidableEq, Repr

/-- A piece of a template. -/
inductive Piece where
  | literal (c : Char)
  | field (f : TemplateField)
  deriving DecidableEq, Repr

namespace Template

/-! ### Cutting -/

/-- The name of a field, the character that ends it and what follows; `inside` tells
that an index is open, in which no character ends the name. -/
def readName (inside : Bool) :
    List Char → Except TemplateFlaw (List Char × Char × List Char)
  | [] => .error .unclosedField
  | c :: rest =>
    if inside then (readName (c ≠ ']') rest).map fun r => (c :: r.1, r.2)
    else if c = '{' then .error .braceInName
    else if c = '}' ∨ c = ':' ∨ c = '!' then .ok ([], c, rest)
    else (readName (c = '[') rest).map fun r => (c :: r.1, r.2)

/-- The layout of a field up to the brace that closes the field, inside of `depth`
further braces. -/
def readPadding (depth : Nat) : List Char → Except TemplateFlaw (List Char × List Char)
  | [] => .error .unclosedPadding
  | c :: rest =>
    if c = '{' then (readPadding (depth + 1) rest).map fun r => (c :: r.1, r.2)
    else if c = '}' then
      match depth with
      | 0 => .ok ([], rest)
      | depth + 1 => (readPadding depth rest).map fun r => (c :: r.1, r.2)
    else (readPadding depth rest).map fun r => (c :: r.1, r.2)

/-- What follows the conversion of a field. -/
def readAfterConversion : List Char → Except TemplateFlaw (List Char × List Char)
  | [] => .error .unclosedPadding
  | c :: rest =>
    if c = '}' then .ok ([], rest)
    else if c = ':' then readPadding 0 rest
    else .error .expectingColon

/-- The field whose opening brace was read, and what follows it. -/
def readField (cs : List Char) : Except TemplateFlaw (TemplateField × List Char) := do
  let (name, stop, rest) ← readName false cs
  if stop = '}' then return (⟨name, none, []⟩, rest)
  else if stop = ':' then
    let (padding, rest) ← readPadding 0 rest
    return (⟨name, none, padding⟩, rest)
  else
    match rest with
    | [] => .error .noConversion
    | conversion :: rest => do
      let (padding, rest) ← readAfterConversion rest
      return (⟨name, some conversion, padding⟩, rest)

/-- The pieces of a text up to its first flaw, and the flaw; `fuel` bounds the number
of pieces. -/
def piecesFrom : (fuel : Nat) → List Char → List Piece × Option TemplateFlaw
  | 0, _ => ([], none)
  | fuel + 1, cs =>
    match cs with
    | [] => ([], none)
    | ['{'] => ([], some .loneOpen)
    | '{' :: '{' :: rest =>
      let (ps, flaw) := piecesFrom fuel rest
      (.literal '{' :: ps, flaw)
    | '}' :: '}' :: rest =>
      let (ps, flaw) := piecesFrom fuel rest
      (.literal '}' :: ps, flaw)
    | '}' :: _ => ([], some .loneClose)
    | '{' :: rest =>
      match readField rest with
      | .error flaw => ([], some flaw)
      | .ok (f, rest) =>
        let (ps, flaw) := piecesFrom fuel rest
        (.field f :: ps, flaw)
    | c :: rest =>
      let (ps, flaw) := piecesFrom fuel rest
      (.literal c :: ps, flaw)

/-- The pieces of a template up to its first flaw, and the flaw. -/
def pieces (template : List Char) : List Piece × Option TemplateFlaw :=
  piecesFrom (template.length + 1) template

/-! ### Values of fields -/

/-- How the fields of a template are numbered: not yet known, by their order, or by
their names. -/
inductive Numbering where
  | undecided
  | automatic (next : Nat)
  | manual
  deriving DecidableEq, Repr

/-- The number that a whole text writes, if it is a number. -/
def wholeNumber? (cs : List Char) : Except TemplateFlaw (Option Nat) := do
  let (n, rest) ← readNumber cs
  return if rest.isEmpty then n else none

/-- The argument number of a field whose name has no accessors, and the numbering
after it. -/
def fieldNumber (numbering : Numbering) (name : List Char) :
    Except TemplateError (Nat × Numbering) :=
  match wholeNumber? name with
  | .error flaw => .error (.flawed flaw)
  | .ok number =>
    match name, number, numbering with
    | [], _, .undecided => .ok (0, .automatic 1)
    | [], _, .automatic next => .ok (next, .automatic (next + 1))
    | [], _, .manual => .error (.flawed .manualThenAutomatic)
    | _, some _, .automatic _ => .error (.flawed .automaticThenManual)
    | _, some n, _ => .ok (n, .manual)
    | _, none, _ => .error (.unknownName (String.ofList name))

/-- The value of a field after its accessors: an index takes a character. The
attributes of texts are left out, so a field that asks for one, such as `{0.upper}`,
fails whatever its name. `fuel` bounds the number of accessors. -/
def access : (fuel : Nat) → List Char → List Char → Except TemplateError (List Char)
  | 0, _, value => .ok value
  | fuel + 1, accessors, value =>
    match accessors with
    | [] => .ok value
    | '.' :: rest =>
      if (rest.takeWhile fun c => c ≠ '.' && c ≠ '[').isEmpty then
        .error (.flawed .emptyAccessor)
      else .error .unknownAttribute
    | '[' :: rest =>
      let key := rest.takeWhile (· ≠ ']')
      match wholeNumber? key with
      | .error flaw => .error (.flawed flaw)
      | .ok index =>
        if key.isEmpty then .error (.flawed .emptyAccessor)
        else
          match index with
          | none => .error .badIndex
          | some i =>
            match value[i]? with
            | none => .error .missingArgument
            | some c => access fuel (rest.drop (key.length + 1)) [c]
    | _ => .error (.flawed .textAfterIndex)

/-- The value of a field without its conversion and its layout, and the numbering
after it. -/
def fieldValue (args : List (List Char)) (numbering : Numbering) (name : List Char) :
    Except TemplateError (List Char × Numbering) := do
  let first := name.takeWhile fun c => c ≠ '.' && c ≠ '['
  let accessors := name.dropWhile fun c => c ≠ '.' && c ≠ '['
  let (number, numbering) ← fieldNumber numbering first
  match args[number]? with
  | none => .error .missingArgument
  | some value => do
    let value ← access accessors.length accessors value
    return (value, numbering)

/-- A value after its conversion. -/
def convert (conversion : Option Char) (value : List Char) :
    Except TemplateError (List Char) :=
  match conversion with
  | none => .ok value
  | some 's' => .ok value
  | some 'r' => .ok (Text.quoted (String.ofList value)).toList
  | some 'a' => .ok (Text.quotedAscii (String.ofList value)).toList
  | some c => .error (.flawed (.unknownConversion c))

/-! ### Filling in -/

/-- Fills in pieces; `layout` fills in the layouts that hold fields. -/
def fillPieces (args : List (List Char))
    (layout : Numbering → List Char → Except TemplateError (List Char × Numbering))
    (numbering : Numbering) : List Piece → Except TemplateError (List Char × Numbering)
  | [] => .ok ([], numbering)
  | .literal c :: rest => do
    let (text, numbering) ← fillPieces args layout numbering rest
    return (c :: text, numbering)
  | .field f :: rest => do
    let (value, numbering) ← fieldValue args numbering f.name
    let value ← convert f.conversion value
    let (padding, numbering) ←
      if f.padding.contains '{' then layout numbering f.padding
        else .ok (f.padding, numbering)
    let shown ← (Padding.layOut padding value).mapError TemplateError.flawed
    let (text, numbering) ← fillPieces args layout numbering rest
    return (shown ++ text, numbering)

/-- Fills in a template in which fields may be nested up to `depth` levels. -/
def fillNested (args : List (List Char)) :
    (depth : Nat) → Numbering → List Char → Except TemplateError (List Char × Numbering)
  | 0, _, _ => .error (.flawed .nestedTooDeeply)
  | depth + 1, numbering, template => do
    let (ps, flaw) := pieces template
    let filled ← fillPieces args (fillNested args depth) numbering ps
    match flaw with
    | some flaw => .error (.flawed flaw)
    | none => return filled

/-- Fills in a template with arguments. -/
def fill (template : List Char) (args : List (List Char)) :
    Except TemplateError (List Char) := do
  let (text, _) ← fillNested args 2 .undecided template
  return text

end Template

end Formulary
