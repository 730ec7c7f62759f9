import Formulary.Template.Error
import Formulary.Text.Digit

/-!
# Padding and cutting texts

The part of a field after the colon says how the text that fills the field is laid
out: a fill character, a side, a width, and the number of characters to keep. Some
letters and signs of this little language only make sense for numbers; with texts
they are refused.

## Main definitions

* `readNumber` reads a number at the front of a text.
* `Padding` is a layout and `Padding.parse` reads one.
* `Padding.apply` lays out a text.
-/

namespace Formulary

/-- The largest number in a template. -/
def maxTemplateNumber : Nat := 9223372036854775807

/-- The number that decimal digits at the front of a text continue, starting from
`n`, and what follows them; `read` tells whether there was a digit before. -/
def readNumberFrom (read : Bool) (n : Nat) :
    List Char → Except TemplateFlaw (Option Nat × List Char)
  | [] => .ok (if read then some n else none, [])
  | c :: rest =>
    match Text.decimalValue? c with
    | none => .ok (if read then some n else none, c :: rest)
    | some d =>
      if (maxTemplateNumber - d) / 10 < n then .error .tooManyDigits
      else readNumberFrom true (n * 10 + d) rest

/-- The number at the front of a text, if there is one, and what follows it. -/
def readNumber (cs : List Char) : Except TemplateFlaw (Option Nat × List Char) :=
  readNumberFrom false 0 cs

/-- The side to which a text is moved. -/
inductive Alignment where
  | left
  | right
  | center
  /-- Between the sign and the digits of a number. -/
  | inner
  deriving DecidableEq, Repr

/-- The alignment of a sign. -/
def Alignment.ofChar? (c : Char) : Option Alignment :=
  if c = '<' then some .left
  else if c = '>' then some .right
  else if c = '^' then some .center
  else if c = '=' then some .inner
  else none

/-- How a text is laid out. -/
structure Padding where
  fill : Char
  alignment : Alignment
  width : Option Nat
  precision : Option Nat
  deriving DecidableEq, Repr

namespace Padding

/-- The fill character and the alignment at the front of a specification. -/
def readAlignment (cs : List Char) : Option Char × Option Alignment × List Char :=
  let single :=
    match cs with
    | c :: rest =>
      match Alignment.ofChar? c with
      | some a => (none, some a, rest)
      | none => (none, none, cs)
    | [] => (none, none, cs)
  match cs with
  | f :: c :: rest =>
    match Alignment.ofChar? c with
    | some a => (some f, some a, rest)
    | none => single
  | _ => single

/-- Takes a character off the front of a text if it passes a test. -/
def takeIf (p : Char → Bool) : List Char → Option Char × List Char
  | c :: rest => if p c then (some c, rest) else (none, c :: rest)
  | [] => (none, [])

/-- The separator of thousands; the two kinds exclude each other. -/
def readSeparator (cs : List Char) : Except TemplateFlaw (Option Char × List Char) :=
  match takeIf (· = ',') cs with
  | (some comma, rest) =>
    if rest.head? = some '_' then .error .bothSeparators else .ok (some comma, rest)
  | (none, rest) =>
    match takeIf (· = '_') rest with
    | (some underscore, rest) =>
      if rest.head? = some ',' then .error .bothSeparators
        else .ok (some underscore, rest)
    | (none, rest) => .ok (none, rest)

/-- The number of characters to keep: a point and a number. -/
def readPrecision (cs : List Char) : Except TemplateFlaw (Option Nat × List Char) :=
  match takeIf (· = '.') cs with
  | (none, rest) => .ok (none, rest)
  | (some _, rest) =>
    match readNumber rest with
    | .error flaw => .error flaw
    | .ok (none, _) => .error .missingPrecision
    | .ok (some n, rest) => .ok (some n, rest)

/-- The code of the layout, which is a single character at the end; texts have the
code `s`. -/
def readCode (spec cs : List Char) : Except TemplateFlaw Char :=
  match cs with
  | [] => .ok 's'
  | [c] => .ok c
  | _ => .error (.invalidPadding (String.ofList spec))

/-- The codes of numbers that allow a separator of thousands. -/
def separatorCodes (separator : Char) : List Char :=
  ['d', 'e', 'f', 'g', 'E', 'G', '%', 'F'] ++ if separator =
    '_' then ['b', 'o', 'x', 'X'] else []

/-- Refuses what only makes sense for numbers. -/
def refuseNumeric (code : Char) (separator sign zero alternate : Option Char)
    (alignment : Option Alignment) : Except TemplateFlaw Unit :=
  match separator.filter fun s => !(separatorCodes s).contains code with
  | some s => .error (.separatorWith s code)
  | none =>
    if code ≠ 's' then .error (.unknownCode code)
    else if sign = some ' ' then .error .spaceNotAllowed
    else if sign.isSome then .error .signNotAllowed
    else if zero.isSome then .error .zeroNotAllowed
    else if alternate.isSome then .error .alternateNotAllowed
    else if alignment = some .inner then .error .innerAlignment
    else .ok ()

/-- Reads the specification of a layout. A zero in front of the width is the fill
character if no other is given. -/
def parse (spec : List Char) : Except TemplateFlaw Padding := do
  let (fill, alignment, cs) := readAlignment spec
  let (sign, cs) := takeIf (fun c => c = ' ' || c = '+' || c = '-') cs
  let (zero, cs) := takeIf (· = 'z') cs
  let (alternate, cs) := takeIf (· = '#') cs
  let (zeroFill, cs) := if fill.isNone then takeIf (· = '0') cs else (none, cs)
  let (width, cs) ← readNumber cs
  let (separator, cs) ← readSeparator cs
  let (precision, cs) ← readPrecision cs
  let code ← readCode spec cs
  refuseNumeric code separator sign zero alternate alignment
  return ⟨(fill.orElse fun _ => zeroFill).getD ' ',
    alignment.getD .left, width, precision⟩

/-- Lays out a text: cuts it to the precision and fills it up to the width. If a
centred text cannot stand in the middle, it stands one place further left. -/
def apply (p : Padding) (text : List Char) : List Char :=
  let kept := match p.precision with
    | some n => text.take n
    | none => text
  let missing := p.width.getD 0 - kept.length
  let before := match p.alignment with
    | .right => missing
    | .center => missing / 2
    | _ => 0
  List.replicate before p.fill ++ kept ++ List.replicate (missing - before) p.fill

/-- Lays out a text as a specification says; an empty specification leaves the text
as it is. -/
def layOut (spec text : List Char) : Except TemplateFlaw (List Char) :=
  if spec.isEmpty then .ok text else (parse spec).map (·.apply text)

end Padding

end Formulary
