import Formulary.Text.Blank

/-!
# Lexemes of math markup

The smallest pieces of a source: comments, blanks, control sequences, braces, the two
script marks and single characters. Every source falls into lexemes in exactly one
way, and nothing is lost.

## Main definitions

* `Lexeme` is a piece of text with its kind.
* `Lexeme.start` is the lexeme that a character opens, and `Lexeme.extend?` the
  longer lexeme that one more character makes of it, if any.
* `lex` cuts a source into lexemes.
* `Token` is a lexeme with its place in the source.

## Design notes

A lexeme grows by one character at a time for as long as it can, so the cutting is a
recursion on the source that looks at one character and never back. A lone backslash
counts as an other character until the next character makes it a control sequence;
only at the end of a source does it stay alone.
-/

namespace Formulary.Markup

/-- The kinds of lexemes. -/
inductive LexemeKind where
  /-- A percent sign and the rest of its line. -/
  | comment
  /-- A run of blank characters. -/
  | blank
  /-- A backslash and a run of letters. -/
  | controlWord
  /-- A backslash and one character that is no letter. -/
  | controlSymbol
  | openBrace
  | closeBrace
  | subscript
  | superscript
  | letter
  | digit
  /-- Any other character. -/
  | other
  deriving DecidableEq, Repr

/-- A piece of a source with its kind. -/
structure Lexeme where
  kind : LexemeKind
  text : List Char
  deriving DecidableEq, Repr

namespace Lexeme

/-- The kind of lexeme that a character opens. -/
def startKind (c : Char) : LexemeKind :=
  if c = '%' then .comment
  else if Text.isBlank c then .blank
  else if c = '{' then .openBrace
  else if c = '}' then .closeBrace
  else if c = '_' then .subscript
  else if c = '^' then .superscript
  else if c.isAlpha then .letter
  else if c.isDigit then .digit
  else .other

/-- The lexeme that a character opens. -/
def start (c : Char) : Lexeme :=
  ⟨startKind c, [c]⟩

/-- The kind of the longer lexeme that one more character makes of a lexeme, if
any. -/
def extendKind? (l : Lexeme) (c : Char) : Option LexemeKind :=
  match l.kind with
  | .comment => if c = '\n' then none else some .comment
  | .blank => if Text.isBlank c then some .blank else none
  | .controlWord => if c.isAlpha then some .controlWord else none
  | .other =>
    if l.text = ['\\']
      then some (if c.isAlpha then .controlWord else .controlSymbol) else none
  | _ => none

/-- The longer lexeme that one more character makes of a lexeme, if any. -/
def extend? (l : Lexeme) (c : Char) : Option Lexeme :=
  (l.extendKind? c).map (⟨·, l.text ++ [c]⟩)

/-- Whether a lexeme only separates others: a blank or a comment. -/
def isGap (l : Lexeme) : Bool :=
  l.kind = .blank || l.kind = .comment

/-- The name that a lexeme gives to a command: a control sequence without its
backslash, or the script mark itself. -/
def name (l : Lexeme) : String :=
  String.ofList
    (if l.kind = .controlWord ∨ l.kind = .controlSymbol then l.text.drop 1 else l.text)

end Lexeme

/-- The lexemes of a source that goes on after the lexeme `l`. -/
def lexFrom (l : Lexeme) : List Char → List Lexeme
  | [] => [l]
  | c :: cs =>
    match l.extend? c with
    | some longer => lexFrom longer cs
    | none => l :: lexFrom (Lexeme.start c) cs

/-- The lexemes of a source. -/
def lex : List Char → List Lexeme
  | [] => []
  | c :: cs => lexFrom (Lexeme.start c) cs

@[simp] theorem lex_nil : lex [] = [] := rfl

/-- The text that lexemes cover. -/
def lexemesText (ls : List Lexeme) : List Char :=
  ls.flatMap Lexeme.text

/-! ### Places -/

/-- A lexeme and the offset of its first character. -/
structure Token where
  lexeme : Lexeme
  start : Nat
  deriving DecidableEq, Repr

/-- The offset just after a token. -/
def Token.stop (t : Token) : Nat :=
  t.start + t.lexeme.text.length

/-- Lexemes in a row with their offsets, the first at `start`. -/
def placeFrom (start : Nat) : List Lexeme → List Token
  | [] => []
  | l :: ls => ⟨l, start⟩ :: placeFrom (start + l.text.length) ls

/-- The tokens of a source. -/
def tokenize (source : String) : List Token :=
  placeFrom 0 (lex source.toList)

end Formulary.Markup
