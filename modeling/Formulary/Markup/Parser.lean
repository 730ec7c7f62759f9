import Formulary.Command.Table
import Formulary.Markup.Tree

/-!
# Reading math markup

The reader takes the lexemes of a source one by one and keeps a stack of what is
still open: groups, arguments, and commands that wait for arguments. It never fails.
What the source leaves open or leaves out shows in the tree: an unclosed group, a
missing argument, a stray brace.

## Main definitions

* `Mode` says whether characters stand alone or form runs.
* `Pending` is a command that waits for arguments.
* `Frame` is something open, and `State` a stack of frames over the finished
  top-level trees.
* `step` takes one lexeme, and `readTrees` reads a whole source.

## Design notes

Before a lexeme is taken, `settle` closes the frames that cannot stay open in front
of it: a command that cannot use the lexeme as its next argument, and a bracketed
argument in front of a closing brace. The end of the source closes every frame. A
closed frame hands its tree to the frame below, which may have to close in turn; this
is a recursion on the stack. Blanks and comments after a waiting command belong to
nothing until the next lexeme decides: they go in front of its next argument, or else
behind the command.
-/

namespace Formulary.Markup

/-- How characters are read. In math every letter and every other character stands
alone, and digits form runs; in text all characters form runs. -/
inductive Mode where
  | math
  | text
  deriving DecidableEq, Repr

/-- A command that waits for arguments. The arguments it has are listed last
first. -/
structure Pending where
  head : Lexeme
  /-- How its arguments are read. -/
  mode : Mode
  args : List Arg
  /-- The shapes of the arguments still to come. -/
  slots : List Slot
  /-- The blanks and comments since the head or the last argument. -/
  gap : List Lexeme

/-- Something that is still open. Finished trees are listed last first. -/
inductive Frame where
  /-- A group. -/
  | group (mode : Mode) (done : List Tree)
  /-- An argument in braces of a waiting command. -/
  | braces (command : Pending) (done : List Tree)
  /-- An argument in brackets of a waiting command. -/
  | brackets (command : Pending) (done : List Tree)
  /-- A command that waits for its next argument. -/
  | pending (command : Pending)

/-- What the reader holds: the open frames, innermost first, and the finished
top-level trees, last first. -/
structure State where
  frames : List Frame
  root : List Tree

/-- Nothing read and nothing open. -/
def State.initial : State := ⟨[], []⟩

/-! ### Arguments -/

/-- Whether a lexeme is an opening bracket. -/
def isOpenBracket (l : Lexeme) : Bool :=
  l.kind = .other && l.text = ['[']

/-- Whether a lexeme is a closing bracket. -/
def isCloseBracket (l : Lexeme) : Bool :=
  l.kind = .other && l.text = [']']

/-- Whether a lexeme can be a delimiter. -/
def isDelimiter (l : Lexeme) : Bool :=
  l.kind = .controlWord || l.kind = .controlSymbol ||
    l.kind = .other || l.kind = .letter

/-- Whether a lexeme can start a mandatory argument. -/
def startsArgument (l : Lexeme) : Bool :=
  !(l.kind = .closeBrace || l.kind = .subscript || l.kind = .superscript)

/-- Drops the optional arguments in front that a lexeme does not open. -/
def skipOptional (l : Lexeme) : List Slot → List Slot
  | [] => []
  | .optional :: rest =>
      if isOpenBracket l then .optional :: rest else skipOptional l rest
  | slots => slots

/-- Whether a lexeme can be used for the next of the arguments still to come. -/
def accepts (l : Lexeme) (slots : List Slot) : Bool :=
  match skipOptional l slots with
  | [] => false
  | .optional :: _ => true
  | .delimiter :: _ => isDelimiter l
  | .mandatory :: _ => startsArgument l

namespace Pending

/-- Gives a waiting command its next argument. -/
def fill (p : Pending) (enclosure : Enclosure) (body : List Tree) : Pending :=
  { p with args := .mk p.gap enclosure body :: p.args, gap := [] }

/-- The tree of a command that gets no further argument. Only optional arguments may
be left out. -/
def tree (p : Pending) : Tree :=
  .command p.head p.args.reverse (p.slots.any (· ≠ .optional))

end Pending

/-! ### Closing frames -/

/-- The tree that a frame leaves behind if it cannot stay open in front of `next`,
and the blanks and comments that follow the tree; `none` stands for the end of the
source. -/
def Frame.closeBefore? (next : Option Lexeme) : Frame → Option (Tree × List Lexeme)
  | .group _ done =>
    if next.isNone then some (.group done.reverse false, []) else none
  | .braces p done =>
    if next.isNone then some ((p.fill (.braces false) done.reverse).tree, []) else none
  | .brackets p done =>
    if next.all (·.kind = .closeBrace) then
      some ((p.fill (.brackets false) done.reverse).tree, [])
    else none
  | .pending p =>
    if next.any (accepts · p.slots) then none else some (p.tree, p.gap)

/-- A frame that gets a finished tree and the blanks and comments that follow it. -/
def Frame.receive (t : Tree) (gap : List Lexeme) : Frame → Frame
  | .group mode done => .group mode ((gap.map Tree.gap).reverse ++ t :: done)
  | .braces p done => .braces p ((gap.map Tree.gap).reverse ++ t :: done)
  | .brackets p done => .brackets p ((gap.map Tree.gap).reverse ++ t :: done)
  | .pending p => .pending { p.fill .bare [t] with gap }

/-- Hands a finished tree and the blanks and comments that follow it to the innermost
of the frames, and closes the frames that then cannot stay open in front of
`next`. -/
def handOver (next : Option Lexeme) (t : Tree) (gap : List Lexeme) (root : List Tree) :
    List Frame → State
  | [] => ⟨[], (gap.map Tree.gap).reverse ++ t :: root⟩
  | f :: below =>
    match (f.receive t gap).closeBefore? next with
    | none => ⟨f.receive t gap :: below, root⟩
    | some (t', gap') => handOver next t' gap' root below

/-- Closes the frames that cannot stay open in front of `next`. -/
def settle (next : Option Lexeme) (s : State) : State :=
  match s.frames with
  | [] => s
  | f :: below =>
    match f.closeBefore? next with
    | none => s
    | some (t, gap) => handOver next t gap s.root below

/-! ### Taking a lexeme -/

/-- Adds a finished tree to the innermost frame. -/
def State.push (t : Tree) (s : State) : State :=
  match s.frames with
  | [] => ⟨[], t :: s.root⟩
  | f :: below => ⟨f.receive t [] :: below, s.root⟩

/-- Opens a frame. -/
def State.open (f : Frame) (s : State) : State :=
  ⟨f :: s.frames, s.root⟩

/-- The command that waits for the arguments of a control word or a script mark. The
arguments of a script mark are always read as math. -/
def pendingFor (table : CommandTable) (mode : Mode) (l : Lexeme) : Pending :=
  if l.kind = .controlWord then
    { head := l, mode := if table.isTextual l.name then .text else mode, args := [],
      slots := table.slots l.name, gap := [] }
  else
    { head := l, mode := .math, args := [], slots := [.mandatory], gap := [] }

/-- The tree of a lexeme that takes no arguments. -/
def atom (l : Lexeme) : Tree :=
  if l.kind = .controlWord ∨ l.kind = .controlSymbol then .plain l else .text l.text

/-- Takes a lexeme as the next argument of a waiting command, or as its start. -/
def takeArgument (table : CommandTable) (p : Pending)
    (below : List Frame) (root : List Tree) (l : Lexeme) : State :=
  match skipOptional l p.slots with
  | .optional :: rest => ⟨.brackets { p with slots := rest } [] :: below, root⟩
  | .delimiter :: rest =>
      ⟨.pending ({ p with slots := rest }.fill .bare [atom l]) :: below, root⟩
  | .mandatory :: rest =>
    if l.kind = .openBrace then ⟨.braces { p with slots := rest } [] :: below, root⟩
    else if l.kind = .controlWord then
      ⟨.pending (pendingFor table p.mode l) ::
        .pending { p with slots := rest } :: below, root⟩
    else ⟨.pending ({ p with slots := rest }.fill .bare [atom l]) :: below, root⟩
  | [] => ⟨.pending p :: below, root⟩

/-- Adds the characters of a lexeme to finished trees, last first: to the run at
their end if it goes on, else as a tree of their own. -/
def addText (mode : Mode) (l : Lexeme) (done : List Tree) : List Tree :=
  match done with
  | .text chars :: rest =>
    if mode = .text ∨ (l.kind = .digit ∧ chars.head?.any Char.isDigit) then
      .text (chars ++ l.text) :: rest
    else .text l.text :: done
  | _ => .text l.text :: done

/-- Whether a run of text is open at the end of finished trees, last first. -/
def runIsOpen (mode : Mode) : List Tree → Bool
  | .text _ :: _ => mode = .text
  | _ => false

/-- Takes a character into the innermost frame. -/
def takeText (l : Lexeme) (s : State) : State :=
  match s.frames with
  | [] => ⟨[], addText .math l s.root⟩
  | .group mode done :: below => ⟨.group mode (addText mode l done) :: below, s.root⟩
  | .braces p done :: below => ⟨.braces p (addText p.mode l done) :: below, s.root⟩
  | .brackets p done :: below =>
    if isCloseBracket l && !runIsOpen p.mode done then
      ⟨.pending (p.fill (.brackets true) done.reverse) :: below, s.root⟩
    else ⟨.brackets p (addText p.mode l done) :: below, s.root⟩
  | .pending _ :: _ => s

/-- Takes a closing brace: it closes the innermost group or braced argument, and is
stray if nothing is open. -/
def takeCloseBrace (s : State) : State :=
  match s.frames with
  | .group _ done :: below => State.push (.group done.reverse true) ⟨below, s.root⟩
  | .braces p done :: below =>
      ⟨.pending (p.fill (.braces true) done.reverse) :: below, s.root⟩
  | _ => s.push .stray

/-- How the innermost frame reads characters. -/
def State.mode (s : State) : Mode :=
  match s.frames with
  | [] => .math
  | .group mode _ :: _ => mode
  | .braces p _ :: _ => p.mode
  | .brackets p _ :: _ => p.mode
  | .pending p :: _ => p.mode

/-- Takes a lexeme that is neither blank nor comment into a settled state. -/
def take (table : CommandTable) (s : State) (l : Lexeme) : State :=
  match s.frames with
  | .pending p :: below => takeArgument table p below s.root l
  | _ =>
    match l.kind with
    | .openBrace => s.open (.group s.mode [])
    | .closeBrace => takeCloseBrace s
    | .subscript | .superscript | .controlWord =>
        s.open (.pending (pendingFor table s.mode l))
    | .controlSymbol => s.push (.plain l)
    | .letter | .digit | .other => takeText l s
    | .comment | .blank => s.push (.gap l)

/-- Takes a blank or a comment: after a waiting command it stays undecided. -/
def takeGap (s : State) (l : Lexeme) : State :=
  match s.frames with
  | .pending p :: below => ⟨.pending { p with gap := p.gap ++ [l] } :: below, s.root⟩
  | _ => s.push (.gap l)

/-- Takes one lexeme. -/
def step (table : CommandTable) (s : State) (l : Lexeme) : State :=
  if l.isGap then takeGap s l else take table (settle (some l) s) l

/-- The trees of a source that ends here. -/
def State.finish (s : State) : List Tree :=
  (settle none s).root.reverse

/-- The trees of the lexemes of a source. -/
def readTrees (table : CommandTable) (ls : List Lexeme) : List Tree :=
  (ls.foldl (step table) State.initial).finish

end Formulary.Markup
