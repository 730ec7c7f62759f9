import Formulary.Markup.Tree

/-!
# Warnings about math markup

What is wrong with a source shows in its trees; a warning names it and its place. The
warnings of the content of a tree come before those of the tree itself.

## Main definitions

* `Warning` is a complaint about the token at an offset.
* `Tree.warnings` lists the warnings of a tree.
-/

namespace Formulary.Markup

/-- What a warning complains about. -/
inductive Complaint where
  | unmatchedBrace
  | unterminatedGroup
  | unterminatedOptional
  | missingArgument
  deriving DecidableEq, Repr

/-- A complaint about the token at an offset of the source. -/
structure Warning where
  complaint : Complaint
  position : Nat
  token : List Char
  deriving DecidableEq, Repr

/-- The wording of a warning. -/
def Warning.message (w : Warning) : String :=
  match w.complaint with
  | .unmatchedBrace => "Unmatched '\x7d'"
  | .unterminatedGroup => "Unterminated group"
  | .unterminatedOptional => "Unterminated optional argument"
  | .missingArgument => "Missing argument for '" ++ String.ofList w.token ++ "'"

/-- The warning about an argument that is not closed; its opening mark stands at the
offset `position`. -/
def Enclosure.warnings (position : Nat) : Enclosure → List Warning
  | .braces false => [⟨.unterminatedGroup, position, ['{']⟩]
  | .brackets false => [⟨.unterminatedOptional, position, ['[']⟩]
  | _ => []

mutual

/-- The warnings of a tree whose text starts at the offset `start`. -/
def Tree.warnings (start : Nat) : Tree → List Warning
  | .text _ => []
  | .gap _ => []
  | .stray => [⟨.unmatchedBrace, start, ['}']⟩]
  | .group body closed =>
    treesWarnings (start + 1) body ++
      if closed then [] else [⟨.unterminatedGroup, start, ['{']⟩]
  | .command head args missing =>
    argsWarnings (start + head.text.length) args ++
      if missing then [⟨.missingArgument, start, head.text⟩] else []

/-- The warnings of trees in a row, the first of which starts at the offset
`start`. -/
def treesWarnings (start : Nat) : List Tree → List Warning
  | [] => []
  | t :: ts => t.warnings start ++ treesWarnings (start + t.width) ts

/-- The warnings of the arguments of a command, whose text starts at the offset
`start`. -/
def argsWarnings (start : Nat) : List Arg → List Warning
  | [] => []
  | .mk before enclosure body :: rest =>
    treesWarnings (start + (lexemesText before).length + enclosure.opening.length)
      body ++
      enclosure.warnings (start + (lexemesText before).length) ++
      argsWarnings (start + (argsChars [.mk before enclosure body]).length) rest

end

end Formulary.Markup
