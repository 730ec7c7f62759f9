import Formulary.Proofs.Grammar
import Formulary.Markup.Document

/-!
# Reading by descent

A second reader of markup.  It goes over the tokens of a source with a cursor, one
function for each kind of markup, and looks ahead by moving the cursor forward and
back again.  Such a reader can go wrong in three ways that the trees of the first
reader do not show: it may look past the mark behind the last token, it may look back
where nothing has been passed yet, and it may go on forever.  Here each of them is a
fault.

## Main definitions

* `Mark` is a token or the end mark, and `marksOf` lists the marks of lexemes.
* `Walk` is a computation that moves the cursor, collects warnings and may fail.
* `readSequence` and the functions beside it are the reader.
* `Walker` reads one source after the other and keeps what the last one has left.

## Design notes

The functions call each other, so a number of steps bounds the depth of the calls;
`Walker.read` takes it from the number of tokens.  The loops over tokens are bounded
by the same number.
-/

namespace Formulary.Markup.Descent

/-! ### Marks -/

/-- A token, or the mark at the end of the tokens, with its offset. -/
structure Mark where
  lexeme? : Option Lexeme
  start : Nat

namespace Mark

/-- The text of a mark; that of the end mark is empty. -/
def text (m : Mark) : List Char :=
  m.lexeme?.elim [] Lexeme.text

/-- The kind of the lexeme of a mark; the end mark has none. -/
def kind? (m : Mark) : Option LexemeKind :=
  m.lexeme?.map Lexeme.kind

/-- The name that a mark gives to a command. -/
def name (m : Mark) : String :=
  m.lexeme?.elim "" Lexeme.name

/-- Whether a mark only separates others. -/
def isGap (m : Mark) : Bool :=
  m.lexeme?.any Lexeme.isGap

/-- The offset just after a mark. -/
def stop (m : Mark) : Nat :=
  m.start + m.text.length

/-- The range of a mark. -/
def span (m : Mark) : Option Span :=
  some ⟨m.start, m.stop⟩

@[simp] theorem text_some (l : Lexeme) (start : Nat) :
    (mk (some l) start).text = l.text := rfl

@[simp] theorem kind?_some (l : Lexeme) (start : Nat) :
    (mk (some l) start).kind? = some l.kind := rfl

@[simp] theorem name_some (l : Lexeme) (start : Nat) :
    (mk (some l) start).name = l.name := rfl

@[simp] theorem stop_some (l : Lexeme) (start : Nat) :
    (mk (some l) start).stop = start + l.text.length := rfl

/-- The text node of a mark. -/
def textNode (m : Mark) : Node :=
  .text m.text m.span

/-- The node of a control sequence without arguments. -/
def plainNode (m : Mark) : Node :=
  .command m.name [] m.span

end Mark

/-- The marks of lexemes in a row, with the end mark. -/
def marksOf (ls : List Lexeme) : List Mark :=
  (placeFrom 0 ls).map (fun t => ⟨some t.lexeme, t.start⟩) ++
    [⟨none, (lexemesText ls).length⟩]

/-! ### Walks -/

/-- What can go wrong in a walk over marks. -/
inductive Fault where
  /-- A mark behind the end mark is looked at. -/
  | pastEnd
  /-- The mark in front of the first one is looked at. -/
  | beforeStart
  /-- The steps are used up. -/
  | exhausted
  deriving DecidableEq, Repr

/-- Where a walk stands, and the warnings it has given so far. -/
structure Spot where
  cursor : Nat
  warnings : List Warning

/-- A computation that walks over marks. -/
abbrev Walk (α : Type) : Type :=
  StateT Spot (Except Fault) α

/-- The mark at the cursor. -/
def peek (marks : List Mark) : Walk Mark := do
  let s ← get
  match marks[s.cursor]? with
  | some m => return m
  | none => throw .pastEnd

/-- The mark in front of the cursor. -/
def previous (marks : List Mark) : Walk Mark := do
  let s ← get
  if s.cursor = 0 then throw .beforeStart
  else
    match marks[s.cursor - 1]? with
    | some m => return m
    | none => throw .pastEnd

/-- Moves the cursor over the mark that it stands at, unless this is the end mark. -/
def advance (marks : List Mark) : Walk Mark := do
  let m ← peek marks
  if m.lexeme?.isSome then
    modify fun s => { s with cursor := s.cursor + 1 }
  previous marks

/-- Moves the cursor to where it was before. -/
def moveBack (cursor : Nat) : Walk Unit :=
  modify fun s => { s with cursor }

/-- Warns about a mark. -/
def warn (complaint : Complaint) (m : Mark) : Walk Unit :=
  modify fun s => { s with warnings := s.warnings ++ [⟨complaint, m.start, m.text⟩] }

/-- Moves the cursor over blanks and comments. -/
def skipGaps (marks : List Mark) : Nat → Walk Unit
  | 0 => throw .exhausted
  | steps + 1 => do
    let m ← peek marks
    if m.isGap then
      let _ ← advance marks
      skipGaps marks steps

/-- Moves the cursor over a run of characters, and adds them to those that the run
starts with. -/
def mergeRun (marks : List Mark) (mode : Mode) :
    Nat → List Char → Nat → Walk (List Char × Nat)
  | 0, _, _ => throw .exhausted
  | steps + 1, chars, stop => do
    let m ← peek marks
    if m.kind?.any mode.joins then
      let next ← advance marks
      mergeRun marks mode steps (chars ++ next.text) next.stop
    else return (chars, stop)

/-! ### The reader -/

/-- Reads the arguments that slots ask for, with a reader for each kind of slot.  The
first mandatory argument that is missing ends it. -/
def readSlots (optional delimiter mandatory : Walk (Option Argument)) (head : Mark) :
    List Slot → Walk (List Argument)
  | [] => return []
  | .optional :: slots => do
    let arg ← optional
    let more ← readSlots optional delimiter mandatory head slots
    return arg.toList ++ more
  | slot :: slots => do
    match ← if slot = .delimiter then delimiter else mandatory with
    | none =>
      warn .missingArgument head
      return []
    | some arg =>
      let more ← readSlots optional delimiter mandatory head slots
      return arg :: more

/-- Reads a delimiter, if one follows. -/
def readDelimiter (marks : List Mark) (steps : Nat) : Walk (Option Argument) := do
  let saved ← get
  skipGaps marks steps
  let m ← peek marks
  match m.kind? with
  | some .controlWord | some .controlSymbol =>
    let _ ← advance marks
    return some (.mk "" "" [m.plainNode])
  | some .other | some .letter =>
    let _ ← advance marks
    return some (.mk "" "" [m.textNode])
  | _ =>
    moveBack saved.cursor
    return none

mutual

/-- Reads nodes up to the end, up to a closing brace that ends the scope, or up to a
closing bracket that does. -/
def readSequence (table : CommandTable) (marks : List Mark) :
    Nat → Scope → Mode → Walk (List Node)
  | 0, _, _ => throw .exhausted
  | steps + 1, scope, mode => do
    let m ← peek marks
    match m.kind? with
    | none => return []
    | some .closeBrace =>
      if scope = .top then
        let _ ← advance marks
        warn .unmatchedBrace m
        let more ← readSequence table marks steps scope mode
        return m.textNode :: more
      else return []
    | some _ =>
      if scope = .brackets ∧ m.lexeme?.any isCloseBracket then return []
      else
        let n ← readNode table marks steps mode
        let more ← readSequence table marks steps scope mode
        return n :: more

/-- Reads a node. -/
def readNode (table : CommandTable) (marks : List Mark) : Nat → Mode → Walk Node
  | 0, _ => throw .exhausted
  | steps + 1, mode => do
    let m ← advance marks
    match m.kind? with
    | some .blank => return .blank m.text m.span
    | some .comment => return .comment m.text m.span
    | some .openBrace =>
      let (children, stop) ← readGroup table marks steps m mode
      return .group children (some ⟨m.start, stop⟩)
    | some .subscript | some .superscript => readScript table marks steps m
    | some .controlWord => readCommand table marks steps m mode
    | some .controlSymbol => return m.plainNode
    | kind =>
      if mode = .text ∨ kind = some .digit then
        let (chars, stop) ← mergeRun marks mode steps m.text m.stop
        return .text chars (some ⟨m.start, stop⟩)
      else return m.textNode

/-- Reads the content of a group whose opening brace has been passed, and tells where
the group ends. -/
def readGroup (table : CommandTable) (marks : List Mark) :
    Nat → Mark → Mode → Walk (List Node × Nat)
  | 0, _, _ => throw .exhausted
  | steps + 1, m, mode => do
    let children ← readSequence table marks steps .braces mode
    let next ← peek marks
    if next.kind? = some .closeBrace then
      let _ ← advance marks
      let last ← previous marks
      return (children, last.stop)
    else
      warn .unterminatedGroup m
      let next ← peek marks
      return (children, next.start)

/-- Reads the argument of a script mark that has been passed. -/
def readScript (table : CommandTable) (marks : List Mark) : Nat → Mark → Walk Node
  | 0, _ => throw .exhausted
  | steps + 1, m => do
    let arg ← readArgument table marks steps .math
    if arg.isNone then
      warn .missingArgument m
    let last ← previous marks
    return .command m.name arg.toList (some ⟨m.start, last.stop⟩)

/-- Reads the arguments of a control word that has been passed. -/
def readCommand (table : CommandTable) (marks : List Mark) :
    Nat → Mark → Mode → Walk Node
  | 0, _, _ => throw .exhausted
  | steps + 1, m, mode =>
    if table.slots m.name = [] then return m.plainNode
    else do
      let inside := if table.isTextual m.name then .text else mode
      let args ← readSlots (readOptional table marks steps inside)
          (readDelimiter marks steps)
        (readArgument table marks steps inside) m (table.slots m.name)
      let last ← previous marks
      return .command m.name args (some ⟨m.start, last.stop⟩)

/-- Reads a mandatory argument, if one follows: a group or a single token with its
own arguments. -/
def readArgument (table : CommandTable) (marks : List Mark) :
    Nat → Mode → Walk (Option Argument)
  | 0, _ => throw .exhausted
  | steps + 1, mode => do
    let saved ← get
    skipGaps marks steps
    let m ← peek marks
    match m.kind? with
    | none | some .closeBrace | some .subscript | some .superscript =>
      moveBack saved.cursor
      return none
    | some .openBrace =>
      let _ ← advance marks
      let (children, _) ← readGroup table marks steps m mode
      return some (.mk "\x7b" "\x7d" children)
    | some .controlWord =>
      let _ ← advance marks
      let n ← readCommand table marks steps m mode
      return some (.mk "" "" [n])
    | some .controlSymbol =>
      let _ ← advance marks
      return some (.mk "" "" [m.plainNode])
    | some _ =>
      let _ ← advance marks
      return some (.mk "" "" [m.textNode])

/-- Reads an argument in brackets, if one follows. -/
def readOptional (table : CommandTable) (marks : List Mark) :
    Nat → Mode → Walk (Option Argument)
  | 0, _ => throw .exhausted
  | steps + 1, mode => do
    let saved ← get
    skipGaps marks steps
    let m ← peek marks
    if m.lexeme?.any isOpenBracket then
      let _ ← advance marks
      let content ← readSequence table marks steps .brackets mode
      let next ← peek marks
      if next.lexeme?.any isCloseBracket then
        let _ ← advance marks
        return some (.mk "[" "]" content)
      else
        warn .unterminatedOptional m
        return some (.mk "[" "" content)
    else
      moveBack saved.cursor
      return none

end

/-! ### Reading one source after the other -/

/-- A reader with what the last source has left in it. -/
structure Walker where
  table : CommandTable
  marks : List Mark
  spot : Spot

namespace Walker

/-- A reader that has read nothing. -/
def ofTable (table : CommandTable) : Walker :=
  ⟨table, [], ⟨0, []⟩⟩

/-- Reads a source from its start, with no warnings from before. -/
def read (w : Walker) (source : String) : Except Fault (List Node × Walker) := do
  let ls := lex source.toList
  let (nodes, spot) ← (readSequence w.table (marksOf ls) (4 * ls.length + 1)
      .top .math).run ⟨0, []⟩
  return (nodes, { w with marks := marksOf ls, spot })

/-- Reads sources one after the other. -/
def readAll (w : Walker) (sources : List String) : Except Fault Walker :=
  sources.foldlM (fun w source => Prod.snd <$> w.read source) w

end Walker

end Formulary.Markup.Descent
