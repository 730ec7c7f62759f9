import Formulary.Markup.Parser
import Formulary.Proofs.Lexemes

/-!
# The grammar of math markup

Which trees a source may be read as, said without the reader.  A tree stands in a
scope, is read in a mode and is followed by the rest of the source.  The rest matters
only in what a tree must *not* be able to take from it: a run of characters ends
where no more of them follow, a command has no further argument where the next lexeme
cannot start one, and only the end of the source (for brackets also a closing brace)
leaves something open.

* `Tree.lexemes` is the yield of a tree.
* `Tree.Reads` and `treesRead` are the grammar.
* `treesRead_append` takes trees in a row apart.
-/

namespace Formulary.Markup

/-! ### The yield of a tree -/

/-- Characters that are lexemes each on its own. -/
def charLexemes (chars : List Char) : List Lexeme :=
  chars.map Lexeme.start

@[simp] theorem charLexemes_nil : charLexemes [] = [] := rfl

@[simp] theorem charLexemes_cons (c : Char) (cs : List Char) :
    charLexemes (c :: cs) = Lexeme.start c :: charLexemes cs := rfl

mutual

/-- The lexemes that a tree was read from. -/
def Tree.lexemes : Tree → List Lexeme
  | .text chars => charLexemes chars
  | .gap lexeme => [lexeme]
  | .stray => [Lexeme.start '}']
  | .group body closed =>
    Lexeme.start '{' ::
      (treesLexemes body ++ charLexemes (Enclosure.braces closed).closing)
  | .command head args _ => head :: argsLexemes args

/-- The lexemes that trees in a row were read from. -/
def treesLexemes : List Tree → List Lexeme
  | [] => []
  | t :: ts => t.lexemes ++ treesLexemes ts

/-- The lexemes that the arguments of a command were read from. -/
def argsLexemes : List Arg → List Lexeme
  | [] => []
  | .mk before enclosure body :: rest =>
    before ++ (charLexemes enclosure.opening ++
      (treesLexemes body ++ (charLexemes enclosure.closing ++ argsLexemes rest)))

end

attribute [simp] Tree.lexemes treesLexemes argsLexemes

@[simp] theorem treesLexemes_append (ts us : List Tree) :
    treesLexemes (ts ++ us) = treesLexemes ts ++ treesLexemes us := by
  induction ts with
  | nil => rfl
  | cons t ts ih => simp [ih]

/-- Trees in a row have the characters of all of them. -/
@[simp] theorem treesChars_append (ts us : List Tree) :
    treesChars (ts ++ us) = treesChars ts ++ treesChars us := by
  induction ts with
  | nil => rfl
  | cons t ts ih => simp [treesChars, ih]

/-- Lexemes of single characters spell the characters. -/
@[simp] theorem lexemesText_charLexemes (chars : List Char) :
    lexemesText (charLexemes chars) = chars := by
  induction chars with
  | nil => rfl
  | cons c cs ih =>
      rw [charLexemes_cons, lexemesText_cons, ih]
      rfl

mutual

/-- The text of a tree is the text of its lexemes. -/
theorem Tree.lexemesText_lexemes : (t : Tree) → lexemesText t.lexemes = t.chars
  | .text chars => lexemesText_charLexemes chars
  | .gap lexeme => by simp [Tree.chars]
  | .stray => rfl
  | .group body closed => by
      simp [Tree.chars, lexemesText_treesLexemes body, Lexeme.start, Enclosure.closing]
  | .command head args missing => by
      simp [Tree.chars, lexemesText_argsLexemes args]

theorem lexemesText_treesLexemes : (ts : List Tree) →
    lexemesText (treesLexemes ts) = treesChars ts
  | [] => rfl
  | t :: ts => by
      simp [treesChars, t.lexemesText_lexemes, lexemesText_treesLexemes ts]

/-- The lexemes of arguments spell their characters. -/
theorem lexemesText_argsLexemes : (args : List Arg) →
    lexemesText (argsLexemes args) = argsChars args
  | [] => rfl
  | .mk before enclosure body :: rest => by
      simp [argsChars, lexemesText_treesLexemes body, lexemesText_argsLexemes rest]

end

/-! ### Runs, lookahead and slots -/

/-- Where trees stand in a row. -/
inductive Scope where
  /-- In no group and in no argument. -/
  | top
  /-- Between braces. -/
  | braces
  /-- Between brackets. -/
  | brackets
  deriving DecidableEq, Repr

/-- The kinds of lexemes that are single characters of text. -/
def LexemeKind.isText (kind : LexemeKind) : Bool :=
  kind = .letter || kind = .digit || kind = .other

/-- The kinds of characters that form runs. -/
def Mode.joins : Mode → LexemeKind → Bool
  | .math, kind => kind = .digit
  | .text, kind => kind.isText

/-- The next lexeme that is no blank and no comment. -/
def ahead (rest : List Lexeme) : Option Lexeme :=
  rest.find? (!·.isGap)

/-- The shapes of the arguments that a control word or a script mark asks for. -/
def argumentSlots (table : CommandTable) (head : Lexeme) : List Slot :=
  if head.kind = .controlWord then table.slots head.name else [.mandatory]

/-- How the arguments of a control word or a script mark are read. -/
def argumentMode (table : CommandTable) (mode : Mode) (head : Lexeme) : Mode :=
  if head.kind = .controlWord
    then (if table.isTextual head.name then .text else mode) else .math

/-! ### The grammar -/

/-- Characters are a tree of text: one that forms no runs, or a run that does not go
on.  In brackets the closing one starts no text. -/
def readsText (scope : Scope) (mode : Mode) (rest : List Lexeme)
    (chars : List Char) : Prop :=
  (scope = .brackets → chars.head? ≠ some ']') ∧
    ((∃ c, chars = [c] ∧ (Lexeme.startKind c).isText ∧
      mode.joins (Lexeme.startKind c) = false) ∨
      (chars ≠ [] ∧ (∀ c ∈ chars, mode.joins (Lexeme.startKind c)) ∧
        ∀ l ∈ rest.head?, mode.joins l.kind = false))

mutual

/-- A tree is read from its lexemes when `rest` follows them. -/
def Tree.Reads (table : CommandTable) (scope : Scope) (mode : Mode)
    (rest : List Lexeme) :
    Tree → Prop
  | .text chars => readsText scope mode rest chars
  | .gap lexeme => lexeme.isGap
  | .stray => scope = .top
  | .group body closed =>
    treesRead table .braces mode
      (charLexemes (Enclosure.braces closed).closing ++ rest) body ∧
      (closed = false → rest = [])
  | .command head args missing =>
    (head.kind = .controlSymbol ∧ args = [] ∧ missing = false) ∨
      ((head.kind = .controlWord ∨ head.kind = .subscript ∨ head.kind = .superscript) ∧
        argsRead table (argumentMode table mode head)
          (argumentSlots table head) rest missing args)

/-- Trees in a row are read from their lexemes when `rest` follows them. -/
def treesRead (table : CommandTable) (scope : Scope) (mode : Mode)
    (rest : List Lexeme) :
    List Tree → Prop
  | [] => True
  | t :: ts =>
    t.Reads table scope mode (treesLexemes ts ++ rest) ∧
      treesRead table scope mode rest ts

/-- A command that has `slots` left gets exactly these arguments when `rest` follows
them; `missing` says that it stays without one that it asks for. -/
def argsRead (table : CommandTable) (mode : Mode) (slots : List Slot)
    (rest : List Lexeme) (missing : Bool) : List Arg → Prop
  | [] => (∀ l ∈ ahead rest, accepts l slots = false) ∧
      missing = slots.any (· ≠ .optional)
  | .mk before (.brackets closed) body :: args =>
    (∀ l ∈ before, l.isGap) ∧
      treesRead table .brackets mode
        (charLexemes (Enclosure.brackets closed).closing ++ (argsLexemes args ++ rest))
          body ∧
      (closed = false → args = [] ∧ ∀ l ∈ rest.head?, l.kind = .closeBrace) ∧
      ∃ left, slots = .optional :: left ∧ argsRead table mode left rest missing args
  | .mk before (.braces closed) body :: args =>
    (∀ l ∈ before, l.isGap) ∧
      treesRead table .braces mode
        (charLexemes (Enclosure.braces closed).closing ++ (argsLexemes args ++ rest))
          body ∧
      (closed = false → args = [] ∧ rest = []) ∧
      ∃ left, skipOptional (Lexeme.start '{') slots = .mandatory :: left ∧
        argsRead table mode left rest missing args
  | .mk before .bare body :: args =>
    (∀ l ∈ before, l.isGap) ∧
      ∃ left, bareReads table mode slots left (argsLexemes args ++ rest) body ∧
        argsRead table mode left rest missing args

/-- A single tree without marks fills a slot: a delimiter is a lexeme as it stands,
and a mandatory argument is one too unless it is a control word, which comes with its
own arguments. -/
def bareReads (table : CommandTable) (mode : Mode) (slots left : List Slot)
    (rest : List Lexeme) : List Tree → Prop
  | [t] =>
    ∃ l ∈ t.lexemes.head?,
      (skipOptional l slots = .delimiter :: left ∧ isDelimiter l ∧ t = atom l) ∨
        (skipOptional l slots = .mandatory :: left ∧
          ((l.kind = .controlWord ∧ t.Reads table .top mode rest) ∨
            ((l.kind.isText ∨ l.kind = .controlSymbol) ∧ t = atom l)))
  | _ => False

end

/-! ### Looking ahead -/

theorem ahead_cons_of_isGap {l : Lexeme} (hl : l.isGap = true) (ls : List Lexeme) :
    ahead (l :: ls) = ahead ls := by
  simp [ahead, hl]

theorem ahead_cons_of_not_isGap {l : Lexeme} (hl : l.isGap = false) (ls : List Lexeme) :
    ahead (l :: ls) = some l := by
  simp [ahead, hl]

/-- Blanks and comments are looked over. -/
theorem ahead_append_of_isGap {gaps tail : List Lexeme}
    (hgaps : ∀ l ∈ gaps, l.isGap = true) (htail : ∀ l ∈ tail.head?, l.isGap = false) :
    ahead (gaps ++ tail) = tail.head? := by
  induction gaps with
  | nil =>
      cases tail with
      | nil => rfl
      | cons l tail => exact ahead_cons_of_not_isGap (htail l rfl) tail
  | cons g gaps ih =>
      rw [List.cons_append, ahead_cons_of_isGap (hgaps g (by simp)),
        ih fun l hl => hgaps l (by simp [hl])]

/-! ### Trees in a row -/

variable {table : CommandTable}

/-- Trees in a row are read one part after the other. -/
theorem treesRead_append {scope : Scope} {mode : Mode} {rest : List Lexeme}
    {ts us : List Tree} :
    treesRead table scope mode rest (ts ++ us) ↔
      treesRead table scope mode (treesLexemes us ++ rest) ts ∧
        treesRead table scope mode rest us := by
  induction ts with
  | nil => simp [treesRead]
  | cons t ts ih => simp [treesRead, ih, and_assoc]

/-! ### The first of some arguments -/

/-- The content of an argument: trees in a row between marks, or a single tree
without them. -/
def contentReads (table : CommandTable) (mode : Mode) (rest : List Lexeme)
    (body : List Tree) : Prop :=
  (∃ scope, scope ≠ .top ∧ treesRead table scope mode rest body) ∨
    ∃ slots left, bareReads table mode slots left rest body

/-- What holds of the first argument whatever encloses it. -/
theorem argsRead_cons {mode : Mode} {slots : List Slot}
    {rest before : List Lexeme} {missing : Bool} {enclosure : Enclosure}
    {body : List Tree} {args : List Arg}
    (h : argsRead table mode slots rest missing (.mk before enclosure body :: args)) :
    (∀ l ∈ before, l.isGap = true) ∧
      (enclosure = .braces false → argsLexemes args ++ rest = []) ∧
      contentReads table mode
        (charLexemes enclosure.closing ++ (argsLexemes args ++ rest)) body ∧
      ∃ left, argsRead table mode left rest missing args := by
  match enclosure, h with
  | .brackets closed, h =>
      simp only [argsRead] at h
      obtain ⟨hbefore, hbody, -, left, -, hargs⟩ := h
      exact ⟨hbefore, by simp, .inl ⟨.brackets, by simp, hbody⟩, left, hargs⟩
  | .braces closed, h =>
      simp only [argsRead] at h
      obtain ⟨hbefore, hbody, hopen, left, -, hargs⟩ := h
      refine ⟨hbefore, fun hclosed => ?_, .inl ⟨.braces, by simp, hbody⟩, left, hargs⟩
      obtain ⟨rfl, rfl⟩ := hopen (Enclosure.braces.inj hclosed)
      rfl
  | .bare, h =>
      simp only [argsRead] at h
      obtain ⟨hbefore, left, hbody, hargs⟩ := h
      exact ⟨hbefore, by simp, .inr ⟨slots, left, hbody⟩, left, hargs⟩

end Formulary.Markup
