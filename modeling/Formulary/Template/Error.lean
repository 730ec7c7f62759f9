import Formulary.Text.Quoted

/-!
# Failures of templates

## Main definitions

* `TemplateFlaw` is what can be wrong with the text of a template.
* `TemplateError` is why a template cannot be filled in.
-/

namespace Formulary

/-- What can be wrong with the text of a template. -/
inductive TemplateFlaw where
  /-- The text ends right after an opening brace. -/
  | loneOpen
  /-- A closing brace closes nothing. -/
  | loneClose
  /-- A field is not closed. -/
  | unclosedField
  /-- An opening brace stands in the name of a field. -/
  | braceInName
  /-- The text ends where a conversion should stand. -/
  | noConversion
  /-- Something else than a colon follows a conversion. -/
  | expectingColon
  /-- The padding of a field is not closed. -/
  | unclosedPadding
  | unknownConversion (c : Char)
  /-- A number is too large. -/
  | tooManyDigits
  | automaticThenManual
  | manualThenAutomatic
  /-- Something else than an accessor follows an index. -/
  | textAfterIndex
  /-- An accessor has no name. -/
  | emptyAccessor
  /-- Fields stand in the padding of a field in the padding of a field. -/
  | nestedTooDeeply
  | invalidPadding (spec : String)
  | unknownCode (c : Char)
  | bothSeparators
  | separatorWith (separator code : Char)
  | missingPrecision
  | signNotAllowed
  | spaceNotAllowed
  | zeroNotAllowed
  | alternateNotAllowed
  | innerAlignment
  deriving DecidableEq, Repr

/-- Why a template cannot be filled in. -/
inductive TemplateError where
  /-- The text of the template is wrong. -/
  | flawed (flaw : TemplateFlaw)
  /-- A field has a name in place of a number. -/
  | unknownName (name : String)
  /-- A field asks for an attribute, and those of texts are left out. -/
  | unknownAttribute
  /-- A field asks for a part of a text by something else than a number. -/
  | badIndex
  /-- An argument, or a character of one, is not there. -/
  | missingArgument
  deriving DecidableEq, Repr

namespace TemplateFlaw

/-- A character in a message: itself, or its code where it does not show. -/
def shownChar (last : Nat) (c : Char) : String :=
  if 32 < c.toNat ∧ c.toNat ≤ last then c.toString
  else "\\x" ++ String.ofList (Text.hexPadded 1 c.toNat)

/-- The wording of a flaw. -/
def message : TemplateFlaw → String
  | .loneOpen => "Single '\x7b' encountered in format string"
  | .loneClose => "Single '\x7d' encountered in format string"
  | .unclosedField => "expected '\x7d' before end of string"
  | .braceInName => "unexpected '\x7b' in field name"
  | .noConversion => "end of string while looking for conversion specifier"
  | .expectingColon => "expected ':' after conversion specifier"
  | .unclosedPadding => "unmatched '\x7b' in format spec"
  | .unknownConversion c => "Unknown conversion specifier " ++ shownChar 126 c
  | .tooManyDigits => "Too many decimal digits in format string"
  | .automaticThenManual =>
    "cannot switch from automatic field numbering to manual field specification"
  | .manualThenAutomatic =>
    "cannot switch from manual field specification to automatic field numbering"
  | .textAfterIndex => "Only '.' or '[' may follow ']' in format field specifier"
  | .emptyAccessor => "Empty attribute in format string"
  | .nestedTooDeeply => "Max string recursion exceeded"
  | .invalidPadding spec =>
      "Invalid format specifier '" ++ spec ++ "' for object of type 'str'"
  | .unknownCode c =>
      "Unknown format code '" ++ shownChar 127 c ++ "' for object of type 'str'"
  | .bothSeparators => "Cannot specify both ',' and '_'."
  | .separatorWith separator code =>
    "Cannot specify '" ++ separator.toString ++ "' with '" ++ shownChar 127 code ++ "'."
  | .missingPrecision => "Format specifier missing precision"
  | .signNotAllowed => "Sign not allowed in string format specifier"
  | .spaceNotAllowed => "Space not allowed in string format specifier"
  | .zeroNotAllowed =>
      "Negative zero coercion (z) not allowed in string format specifier"
  | .alternateNotAllowed => "Alternate form (#) not allowed in string format specifier"
  | .innerAlignment => "'=' alignment not allowed in string format specifier"

end TemplateFlaw

end Formulary
