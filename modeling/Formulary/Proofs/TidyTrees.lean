import Formulary.Proofs.Orderly
import Formulary.Proofs.Outline

/-!
# Tidy sources

Writing the nodes of a source anew loses some of it: comments and the braces of
groups, the space between a command and its argument, the backslash of an escaped
script mark.  In a *tidy* source nothing of this matters.  It has no comments, no
groups, no escaped script marks and no lone backslash, and a command other than a
script mark or a decorator has its arguments in marks or is followed by a delimiter
that is no letter.

* `sourceIsTidy` tells of a source whether it is tidy.
* `Tree.Tidy` says of the trees of a tidy source what all the arguments about them
  need, and `treesTidy_of_read` shows that it holds of them.
* `Tree.rewritten` is the tree that will be read from what is written for a tree.
-/

namespace Formulary.Markup

open Formulary.Variable

/-! ### Tidy sources -/

/-- Whether a lexeme can be written as it stands: no comment, no lone backslash and
no script mark with a backslash in front. -/
def Lexeme.isTidy (l : Lexeme) : Bool :=
  l.kind ≠ .comment && l.text ≠ ['\\'] && l.text ≠ ['\\', '_'] && l.text ≠ ['\\', '^']

/-- Whether nodes are a single letter. -/
def isSingleLetter : List Node → Bool
  | [.text [c] _] => c.isAlpha
  | _ => false

/-- Whether an argument of a command keeps apart from it: its marks are written in
any case, or it has some, or it is a delimiter that is no letter. -/
def argumentKeepsApart (table : CommandTable) (name opening : String)
    (content : List Node) : Bool :=
  dropsMarks table name || opening = "\x7b" || opening = "[" ||
    ((table.slots name).contains .delimiter && !isSingleLetter content)

mutual

/-- Whether a node is tidy. -/
def nodeIsTidy (table : CommandTable) : Node → Bool
  | .text _ _ => true
  | .blank _ _ => true
  | .comment _ _ => true
  | .group _ _ => false
  | .command name args _ => argumentsAreTidy table name args

/-- Whether nodes in a row are tidy. -/
def nodesAreTidy (table : CommandTable) : List Node → Bool
  | [] => true
  | n :: ns => nodeIsTidy table n && nodesAreTidy table ns

/-- Whether the arguments of the command `name` are tidy. -/
def argumentsAreTidy (table : CommandTable) (name : String) : List Argument → Bool
  | [] => true
  | .mk opening _ content :: rest =>
    argumentKeepsApart table name opening content && nodesAreTidy table content &&
      argumentsAreTidy table name rest

end

/-- Whether a source is tidy. -/
def sourceIsTidy (table : CommandTable) (source : String) : Bool :=
  (lex source.toList).all Lexeme.isTidy && nodesAreTidy table (parse table source).nodes

end Formulary.Markup

namespace Formulary

open Formulary.Markup

/-- A table in which a decorator takes exactly one argument and a command with a
delimiter nothing else. -/
structure CommandTable.Regular (t : CommandTable) : Prop where
  decorators : ∀ name, t.isDecorator name = true → t.slots name = [.mandatory]
  delimiters : ∀ name, Slot.delimiter ∈ t.slots name → t.slots name = [.delimiter]

theorem CommandTable.standard_regular : CommandTable.standard.Regular where
  decorators name h := by
    have hall : ∀ name ∈ standard.accents ++ standard.fonts,
        standard.slots name = [.mandatory] := by
      decide +kernel
    exact hall name (by simpa [isDecorator] using h)
  delimiters name h := by
    have hall : ∀ entry ∈ standard.signatures,
        Slot.delimiter ∈ (Text.words entry.2).map Slot.ofWord →
          (Text.words entry.2).map Slot.ofWord = [.delimiter] := by decide +kernel
    have hslots : standard.slots name = (standard.signature name).map Slot.ofWord := rfl
    rw [hslots, signature] at h ⊢
    split at h
    · next spec hspec =>
      exact hall _ (Assoc.mem_of_lookup? hspec) h
    · have hnone : ∀ ws ∈ [["m"], []], Slot.delimiter ∉ ws.map Slot.ofWord := by decide
      split_ifs at h
      · exact absurd h (hnone _ (by simp))
      · exact absurd h (hnone _ (by simp))

end Formulary

namespace Formulary.Markup

open Formulary.Variable

variable {table : CommandTable}

/-! ### Slots by name -/

theorem isScriptName_of_mark {l : Lexeme} (hl : l.Proper)
    (h : l.kind = .subscript ∨ l.kind = .superscript) : isScriptName l.name = true := by
  rcases h with h | h
  · obtain rfl : l = Lexeme.start '_' := hl.eq_start_of_mark (by simp) h
    rfl
  · obtain rfl : l = Lexeme.start '^' := hl.eq_start_of_mark (by simp) h
    rfl

/-- Where the marks around an argument are not kept, the argument is the only one. -/
theorem argumentSlots_of_dropsMarks (hregular : table.Regular) {head : Lexeme}
    (hproper : head.Proper) (h : dropsMarks table head.name = true) :
    argumentSlots table head = [.mandatory] := by
  by_cases hword : head.kind = .controlWord
  · have hdecorator : table.isDecorator head.name = true := by
      simpa [dropsMarks, isScriptName_eq_false_of_controlWord hproper hword] using h
    rw [argumentSlots, if_pos hword, hregular.decorators head.name hdecorator]
  · rw [argumentSlots, if_neg hword]

/-- Where the marks around arguments are kept, the command is a word with slots of
its own. -/
theorem argumentSlots_of_keepsMarks {head : Lexeme} (hproper : head.Proper)
    (hkind : head.kind = .controlWord ∨ head.kind = .subscript ∨
      head.kind = .superscript)
    (h : dropsMarks table head.name = false) :
    argumentSlots table head = table.slots head.name := by
  have hword : head.kind = .controlWord := by
    refine hkind.resolve_right fun hmark => ?_
    simp [dropsMarks, isScriptName_of_mark hproper hmark] at h
  rw [argumentSlots, if_pos hword]

/-! ### Tidy trees -/

mutual

/-- A tree that is written so that it can be read again. -/
def Tree.Tidy (table : CommandTable) : Tree → Prop
  | .text chars => chars ≠ [] ∧
      ∀ c ∈ chars, (Lexeme.startKind c).isText = true ∧ c ≠ '\\'
  | .gap lexeme => lexeme.kind = .blank
  | .stray => True
  | .group _ _ => False
  | .command head args _ =>
    head.Proper ∧ head.isTidy = true ∧
      (head.kind = .controlSymbol ∧ args = [] ∨
        head.kind = .controlWord ∨ head.kind = .subscript ∨ head.kind = .superscript) ∧
      argsTidy table head.name args

/-- Trees in a row that are written so that they can be read again. -/
def treesTidy (table : CommandTable) : List Tree → Prop
  | [] => True
  | t :: ts => t.Tidy table ∧ treesTidy table ts

/-- Arguments of the command `name` that are written so that they can be read again.
Of a command that is written with marks of its own there is only one argument, and
elsewhere an argument without marks is a delimiter. -/
def argsTidy (table : CommandTable) (name : String) : List Arg → Prop
  | [] => True
  | .mk _ enclosure body :: rest =>
    treesTidy table body ∧ argsTidy table name rest ∧
      (dropsMarks table name = true → rest = []) ∧
      (dropsMarks table name = false → enclosure = .bare →
        Slot.delimiter ∈ table.slots name ∧
          ∃ l, body = [atom l] ∧ (atom l).lexemes = [l] ∧ isDelimiter l =
            true ∧ l.kind ≠ .letter)

end

theorem tidy_text {scope : Scope} {mode : Mode} {rest : List Lexeme} {chars : List Char}
    (h : readsText scope mode rest chars)
    (htidy : ∀ l ∈ charLexemes chars, l.isTidy = true) :
    (Tree.text chars).Tidy table := by
  have hback : ∀ c ∈ chars, c ≠ '\\' := by
    rintro c hc rfl
    have hlone := htidy (Lexeme.start '\\') (List.mem_map_of_mem hc)
    exact absurd hlone (by decide)
  have hne : chars ≠ [] := by
    obtain ⟨-, ⟨c, rfl, -⟩ | ⟨hne, -⟩⟩ := h
    · simp
    · exact hne
  simp only [Tree.Tidy]
  exact ⟨hne, fun c hc => ⟨isText_of_readsText h c hc, hback c hc⟩⟩

theorem atom_start {c : Char} (h : (Lexeme.startKind c).isText = true) :
    atom (Lexeme.start c) = .text [c] := by
  have hplain : ¬ (Lexeme.startKind c = .controlWord ∨
      Lexeme.startKind c = .controlSymbol) := by
    rcases LexemeKind.eq_of_isText h with h | h | h <;> simp [h]
  exact if_neg hplain

/-- A lexeme of text that stands for itself is a single character. -/
theorem eq_start_of_atom {l : Lexeme} (hl : l ∈ (atom l).lexemes.head?)
    (hkind : l.kind.isText = true) : ∃ c, l = Lexeme.start c ∧ atom l = .text [c] := by
  have hatom : atom l = .text l.text := by
    rcases LexemeKind.eq_of_isText hkind with h | h | h <;> exact if_neg (by simp [h])
  rw [hatom] at hl
  cases htext : l.text with
  | nil => simp [htext] at hl
  | cons c cs =>
      obtain rfl : Lexeme.start c = l := by simpa [htext] using hl
      exact ⟨c, rfl, atom_start hkind⟩

/-- A tidy lexeme that is an argument by itself is a tidy tree. -/
theorem tidy_atom {l : Lexeme} (hproper : l.Proper) (htidy : l.isTidy = true)
    (hkind : l.kind.isText = true ∨ l.kind = .controlSymbol ∨ l.kind = .controlWord) :
    (atom l).Tidy table := by
  rcases hkind with hkind | hkind
  · obtain ⟨c, rfl⟩ := hproper.eq_start_of_isText hkind
    rw [atom_start hkind, Tree.Tidy]
    refine ⟨by simp, fun d hd => ?_⟩
    obtain rfl := List.mem_singleton.mp hd
    refine ⟨hkind, ?_⟩
    rintro rfl
    exact absurd htidy (by decide)
  · rw [atom, if_pos hkind.symm, Tree.plain, Tree.Tidy]
    simp only [argsTidy, and_true]
    exact ⟨hproper, htidy, hkind.imp_right .inl⟩

/-- A bare argument of a command that asks for delimiters is one, and it is no
letter. -/
theorem delimiter_of_bare {name : String} (hregular : table.Regular) {mode : Mode}
    {slots left : List Slot} {rest : List Lexeme} {body : List Tree} {start : Nat}
    (hslots : slots <:+ table.slots name) (hname : Slot.delimiter ∈ table.slots name)
    (hletter : isSingleLetter (treesNodes start body) = false)
    (h : bareReads table mode slots left rest body) :
    ∃ l, body = [atom l] ∧ (atom l).lexemes = [l] ∧ isDelimiter l = true ∧
      l.kind ≠ .letter := by
  rw [hregular.delimiters name hname] at hslots
  match body, h with
  | [t], h =>
      simp only [bareReads] at h
      obtain ⟨l, hl, ⟨-, hdelimiter, rfl⟩ | ⟨hskip, -⟩⟩ := h
      · refine ⟨l, rfl, lexemes_atom hl, hdelimiter, fun hkind => ?_⟩
        -- A letter would be the text of a single letter.
        obtain ⟨c, rfl, hatom⟩ :=
          eq_start_of_atom hl (by simp [hkind, LexemeKind.isText])
        have halpha : c.isAlpha = true := isAlpha_of_startKind hkind
        simp [hatom, treesNodes, Tree.node, isSingleLetter, halpha] at hletter
      · have hmandatory : Slot.mandatory ∈ [Slot.delimiter] :=
          hslots.subset ((skipOptional_suffix l slots).subset (by simp [hskip]))
        simp at hmandatory

mutual

theorem Tree.tidy_of_reads (hregular : table.Regular) : (t : Tree) → (start : Nat) →
    (scope : Scope) → (mode : Mode) → (rest : List Lexeme) →
    t.Reads table scope mode rest → (∀ l ∈ t.lexemes, l.Proper ∧ l.isTidy = true) →
      nodeIsTidy table (t.node start) = true →
      t.Tidy table
  | .text chars, _, _, _, _, hreads, hlexemes, _ => by
      simp only [Tree.Reads] at hreads
      exact tidy_text hreads fun l hl => (hlexemes l hl).2
  | .gap lexeme, _, _, _, _, hreads, hlexemes, _ => by
      have htidy := (hlexemes lexeme (by simp)).2
      simp only [Tree.Reads, Lexeme.isGap, Bool.or_eq_true, decide_eq_true_eq] at hreads
      simp only [Lexeme.isTidy, Bool.and_eq_true, decide_eq_true_eq] at htidy
      rw [Tree.Tidy]
      exact hreads.resolve_right htidy.1.1.1
  | .stray, _, _, _, _, _, _, _ => by simp only [Tree.Tidy]
  | .group _ _, _, _, _, _, _, _, htidy => by simp [Tree.node, nodeIsTidy] at htidy
  | .command head args missing, start, _, mode, rest, hreads, hlexemes, htidy => by
      obtain ⟨hproper, hhead⟩ := hlexemes head (by simp)
      simp only [Tree.Reads] at hreads
      rw [Tree.node, nodeIsTidy] at htidy
      rw [Tree.Tidy]
      rcases hreads with ⟨hkind, rfl, -⟩ | ⟨hkind, hargs⟩
      · exact ⟨hproper, hhead, .inl ⟨hkind, rfl⟩, by simp only [argsTidy]⟩
      · refine ⟨hproper, hhead, .inr hkind, ?_⟩
        refine argsTidy_of_read hregular head.name args _ _ _ rest missing hargs
          (fun l hl => hlexemes l (by simp [hl])) htidy ?_ ?_
        · intro hname
          rw [argumentSlots_of_dropsMarks hregular hproper hname]
          exact Nat.le_refl 1
        · intro hname
          have hslots := argumentSlots_of_keepsMarks hproper hkind hname
          exact hslots ▸ List.suffix_rfl

/-- The trees that are read from a tidy source are tidy. -/
theorem treesTidy_of_read (hregular : table.Regular) :
    (ts : List Tree) → (start : Nat) → (scope : Scope) → (mode : Mode) →
    (rest : List Lexeme) → treesRead table scope mode rest ts →
    (∀ l ∈ treesLexemes ts, l.Proper ∧ l.isTidy = true) →
      nodesAreTidy table (treesNodes start ts) = true → treesTidy table ts
  | [], _, _, _, _, _, _, _ => by simp only [treesTidy]
  | t :: ts, start, scope, mode, rest, hreads, hlexemes, htidy => by
      simp only [treesRead] at hreads
      rw [treesNodes, nodesAreTidy, Bool.and_eq_true] at htidy
      rw [treesTidy]
      exact ⟨t.tidy_of_reads hregular start scope mode _ hreads.1
          (fun l hl => hlexemes l (by simp [hl])) htidy.1,
        treesTidy_of_read hregular ts _ scope mode rest hreads.2
          (fun l hl => hlexemes l (by simp [hl])) htidy.2⟩

/-- Arguments are tidy if their lexemes and nodes are. -/
theorem argsTidy_of_read (hregular : table.Regular)
    (name : String) : (args : List Arg) → (start : Nat) → (mode : Mode) →
    (slots : List Slot) → (rest : List Lexeme) → (missing : Bool) →
    argsRead table mode slots rest missing args →
    (∀ l ∈ argsLexemes args, l.Proper ∧ l.isTidy = true) →
    argumentsAreTidy table name (argsArguments start args) = true →
    (dropsMarks table name = true → slots.length ≤ 1) →
      (dropsMarks table name = false → slots <:+ table.slots name) →
        argsTidy table name args
  | [], _, _, _, _, _, _, _, _, _, _ => by simp only [argsTidy]
  | .mk before enclosure body :: args, start, mode, slots, rest, missing,
      hreads, hlexemes, htidy, hsingle, hslots => by
      have hlength := length_le_of_argsRead hreads
      obtain ⟨-, -, hcontent, -⟩ := argsRead_cons hreads
      obtain ⟨slot, left, hleft, hargs⟩ := exists_slot_of_argsRead hreads
      have hinside : ∀ l ∈ treesLexemes body, l.Proper ∧ l.isTidy = true :=
        fun l hl => hlexemes l (by simp [hl])
      rw [argsArguments, argumentsAreTidy, Bool.and_eq_true, Bool.and_eq_true] at htidy
      obtain ⟨⟨hapart, hbody⟩, hrest⟩ := htidy
      rw [argsTidy]
      -- The body is tidy, and so are the other arguments. A command that drops marks
      -- has no other arguments, and a bare argument of any other command is a
      -- delimiter.
      refine ⟨?_, ?_, fun hname => ?_, fun hname hbare => ?_⟩
      · rcases hcontent with ⟨scope, -, hread⟩ | ⟨slots', left', hread⟩
        · exact treesTidy_of_read hregular body _ scope mode _ hread hinside hbody
        · exact treesTidy_of_bare hregular body _ mode slots' left'
            _ hread hinside hbody
      · refine argsTidy_of_read hregular name args _ mode left rest missing hargs
          (fun l hl => hlexemes l (by simp [hl])) hrest (fun hname => ?_)
          fun hname => ?_
        · have := hleft.length_le
          have := hsingle hname
          rw [List.length_cons] at *
          omega
        · exact ((List.suffix_cons slot left).trans hleft).trans (hslots hname)
      · have := hsingle hname
        rw [List.length_cons] at hlength
        exact List.eq_nil_of_length_eq_zero (by omega)
      · subst hbare
        simp only [argsRead] at hreads
        obtain ⟨-, left', hread, -⟩ := hreads
        have hopening : (Enclosure.bare).marks.1 = "" := rfl
        rw [argumentKeepsApart, hname, hopening] at hapart
        have hdelimiter : Slot.delimiter ∈ table.slots name ∧ isSingleLetter (treesNodes
            (start + (lexemesText before).length + (Enclosure.bare).opening.length)
              body) = false := by
          simpa using hapart
        exact ⟨hdelimiter.1,
          delimiter_of_bare hregular (hslots hname) hdelimiter.1 hdelimiter.2 hread⟩

theorem treesTidy_of_bare (hregular : table.Regular) :
    (body : List Tree) → (start : Nat) → (mode : Mode) → (slots left : List Slot) →
    (rest : List Lexeme) → bareReads table mode slots left rest body →
    (∀ l ∈ treesLexemes body, l.Proper ∧ l.isTidy = true) →
    nodesAreTidy table (treesNodes start body) = true → treesTidy table body
  | [], _, _, _, _, _, hreads, _, _ => by simp only [bareReads] at hreads
  | [t], start, mode, _, _, rest, hreads, hlexemes, htidy => by
      simp only [bareReads] at hreads
      simp only [treesLexemes, List.append_nil] at hlexemes
      simp only [treesNodes, nodesAreTidy, Bool.and_true] at htidy
      simp only [treesTidy, and_true]
      obtain ⟨l, hl, hcases⟩ := hreads
      obtain ⟨hproper, hl'⟩ := hlexemes l (List.mem_of_mem_head? hl)
      obtain ⟨-, hdelimiter, rfl⟩ | ⟨-, ⟨-, ht⟩ | ⟨hkind, rfl⟩⟩ := hcases
      · refine tidy_atom hproper hl' ?_
        cases hkind : l.kind <;> simp_all [isDelimiter, LexemeKind.isText]
      · exact t.tidy_of_reads hregular start .top mode rest ht hlexemes htidy
      · exact tidy_atom hproper hl' (hkind.imp_right .inl)
  | _ :: _ :: _, _, _, _, _, _, hreads, _, _ => by simp only [bareReads] at hreads

end

/-! ### The trees that are read again -/

/-- What encloses the content of a script when it is written: a single digit stays
bare. -/
def scriptEnclosure : List Tree → Enclosure
  | [.text [c]] => if Text.isDigit c then .bare else .braces true
  | _ => .braces true

/-- Braces are always closed when they are written. -/
def Enclosure.written : Enclosure → Enclosure
  | .braces _ => .braces true
  | enclosure => enclosure

/-- What encloses an argument of the command `name` when it is written. -/
def writtenEnclosure (table : CommandTable) (name : String) (enclosure : Enclosure)
    (body : List Tree) : Enclosure :=
  if isScriptName name then scriptEnclosure body
  else if table.isDecorator name then .braces true
  else enclosure.written

theorem writtenEnclosure_of_keepsMarks {name : String}
    (h : dropsMarks table name = false) (enclosure : Enclosure) (body : List Tree) :
    writtenEnclosure table name enclosure body = enclosure.written := by
  obtain ⟨hscript, hdecorator⟩ := Bool.or_eq_false_iff.mp h
  simp [writtenEnclosure, hscript, hdecorator]

mutual

/-- The tree that is read from what is written for a tree. -/
def Tree.rewritten (table : CommandTable) : Tree → Tree
  | .text chars => .text chars
  | .gap _ => .gap ⟨.blank, [' ']⟩
  | .stray => .stray
  | .group body closed => .group (treesRewritten table body) closed
  | .command head args missing =>
      .command head (argsRewritten table head.name args) missing

/-- The trees that are read from what is written for trees in a row. -/
def treesRewritten (table : CommandTable) : List Tree → List Tree
  | [] => []
  | t :: ts => t.rewritten table :: treesRewritten table ts

/-- The arguments that are read from what is written for the arguments of the command
`name`. -/
def argsRewritten (table : CommandTable) (name : String) : List Arg → List Arg
  | [] => []
  | .mk _ enclosure body :: rest =>
    .mk [] (writtenEnclosure table name enclosure body) (treesRewritten table body) ::
      argsRewritten table name rest

end

@[simp] theorem rewritten_atom (l : Lexeme) : (atom l).rewritten table = atom l := by
  unfold atom
  split_ifs <;> rfl

mutual

theorem Tree.depth_rewritten : (t : Tree) → (t.rewritten table).depth = t.depth
  | .text _ => rfl
  | .gap _ => rfl
  | .stray => rfl
  | .group body _ => by
      simp only [Tree.rewritten, Tree.depth, treesDepth_rewritten body]
  | .command head args _ => by
      simp only [Tree.rewritten, Tree.depth, argsDepth_rewritten head.name args]

/-- Trees that are read again are nested as deeply as before. -/
theorem treesDepth_rewritten :
    (ts : List Tree) → treesDepth (treesRewritten table ts) = treesDepth ts
  | [] => rfl
  | t :: ts => by
      simp only [treesRewritten, treesDepth, t.depth_rewritten, treesDepth_rewritten ts]

theorem argsDepth_rewritten (name : String) : (args : List Arg) →
    argsDepth (argsRewritten table name args) = argsDepth args
  | [] => rfl
  | .mk _ _ body :: rest => by
      simp only [argsRewritten, argsDepth, treesDepth_rewritten body,
        argsDepth_rewritten name rest]

end

/-! ### The same outline -/

theorem Enclosure.marks_written (enclosure : Enclosure) :
    enclosure.written.marks = enclosure.marks := by
  cases enclosure <;> rfl

mutual

/-- A tidy tree keeps its outline when it is written anew. -/
theorem Tree.outline_rewritten : (t : Tree) → (start start' : Nat) → t.Tidy table →
    nodeOutline table ((t.rewritten table).node start) =
      nodeOutline table (t.node start')
  | .text _, _, _, _ => rfl
  | .gap lexeme, _, _, h => by
      simp only [Tree.Tidy] at h
      simp [Tree.rewritten, Tree.node, h, nodeOutline]
  | .stray, _, _, _ => rfl
  | .group _ _, _, _, h => by simp only [Tree.Tidy] at h
  | .command head args _, start, start', h => by
      simp only [Tree.Tidy] at h
      simp only [Tree.rewritten, Tree.node, nodeOutline]
      rw [argsOutline_rewritten head.name args _ _ h.2.2.2]

/-- **Trees that are read again have the same outline.** -/
theorem treesOutline_rewritten :
    (ts : List Tree) → (start start' : Nat) → treesTidy table ts →
      nodesOutline table (treesNodes start (treesRewritten table ts)) =
      nodesOutline table (treesNodes start' ts)
  | [], _, _, _ => rfl
  | t :: ts, _, _, h => by
      simp only [treesTidy] at h
      simp only [treesRewritten, treesNodes, nodesOutline]
      rw [t.outline_rewritten _ _ h.1, treesOutline_rewritten ts _ _ h.2]

/-- Tidy arguments keep their outline when they are written anew. -/
theorem argsOutline_rewritten (name : String) :
    (args : List Arg) → (start start' : Nat) → argsTidy table name args →
      argumentsOutline table (dropsMarks table name)
          (argsArguments start (argsRewritten table name args)) =
        argumentsOutline table (dropsMarks table name) (argsArguments start' args)
  | [], _, _, _ => rfl
  | .mk _ enclosure body :: rest, _, _, h => by
      simp only [argsTidy] at h
      have hmarks : dropsMarks table name = false →
          (writtenEnclosure table name enclosure body).marks = enclosure.marks := by
        intro hname
        rw [writtenEnclosure_of_keepsMarks hname, Enclosure.marks_written]
      simp only [argsRewritten, argsArguments, argumentsOutline]
      rw [treesOutline_rewritten body _ _ h.1,
        argsOutline_rewritten name rest _ _ h.2.1]
      cases hname : dropsMarks table name with
      | true => rfl
      | false => rw [hmarks hname]

end

/-! ### The same text -/

/-- The text of a head from its name: that of a script mark is the mark, and a
backslash goes in front of any other. -/
theorem text_of_head {head : Lexeme} (hproper : head.Proper)
    (htidy : head.isTidy = true) (hkind : head.kind = .controlSymbol ∨
      head.kind = .controlWord ∨ head.kind = .subscript ∨ head.kind = .superscript) :
    head.text = if isScriptName head.name then head.name.toList else '\\' ::
      head.name.toList := by
  rcases hkind with hkind | hkind | hkind | hkind
  · obtain ⟨kind, text⟩ := head
    obtain rfl : kind = .controlSymbol := hkind
    obtain ⟨c, rfl, -⟩ := hproper
    have hmark : c ≠ '_' ∧ c ≠ '^' := by simpa [Lexeme.isTidy] using htidy
    have hname : Lexeme.name ⟨.controlSymbol, ['\\', c]⟩ = String.ofList [c] := rfl
    have hscript : isScriptName (String.ofList [c]) = false := by
      simp [isScriptName, ← String.toList_inj, hmark]
    rw [hname, hscript, String.toList_ofList]
    rfl
  · rw [isScriptName_eq_false_of_controlWord hproper hkind]
    exact text_eq_of_controlWord hproper hkind
  · obtain rfl : head = Lexeme.start '_' := hproper.eq_start_of_mark (by simp) hkind
    rfl
  · obtain rfl : head = Lexeme.start '^' := hproper.eq_start_of_mark (by simp) hkind
    rfl

/-- Only a script mark has a text of one character, and this is no digit. -/
theorem text_of_head_ne_digit {head : Lexeme} (hproper : head.Proper)
    (htidy : head.isTidy = true) (hkind : head.kind = .controlSymbol ∨
      head.kind = .controlWord ∨ head.kind = .subscript ∨ head.kind = .superscript)
    {c : Char} (hc : Text.isDigit c = true) : head.text ≠ [c] := by
  intro htext
  have hname := text_of_head hproper htidy hkind
  split_ifs at hname with hscript
  · simp only [isScriptName, Bool.or_eq_true, decide_eq_true_eq] at hscript
    rw [hname] at htext
    rcases hscript with hscript | hscript
    all_goals
      rw [hscript] at htext
      obtain rfl := (List.cons.inj htext).1
      exact absurd hc (by decide)
  · rw [htext] at hname
    obtain rfl := (List.cons.inj hname).1
    exact absurd hc (by decide)

/-- A tidy tree does not vanish when it is written anew. -/
theorem Tree.Tidy.chars_ne_nil {t : Tree} (h : t.Tidy table) :
    (t.rewritten table).chars ≠ [] := by
  cases t with
  | text chars =>
      simp only [Tree.Tidy] at h
      exact h.1
  | gap _ => simp [Tree.rewritten, Tree.chars]
  | stray => simp [Tree.rewritten, Tree.chars]
  | group _ _ => simp only [Tree.Tidy] at h
  | command head args missing =>
      simp only [Tree.Tidy] at h
      simp [Tree.rewritten, Tree.chars, h.1.text_ne_nil]

/-- Trees that are written as a single digit are this digit. -/
theorem eq_text_of_digit {body : List Tree} (h : treesTidy table body) {c : Char}
    (hchars : treesChars (treesRewritten table body) = [c])
    (hc : Text.isDigit c = true) :
    body = [.text [c]] := by
  match body, h with
  | [], _ => simp [treesRewritten, treesChars] at hchars
  | t :: u :: ts, h =>
      simp only [treesTidy] at h
      -- Tidy trees are written with at least one character each.
      have hlength := congrArg List.length hchars
      have ht := List.length_pos_of_ne_nil h.1.chars_ne_nil
      have hu := List.length_pos_of_ne_nil h.2.1.chars_ne_nil
      simp only [treesRewritten, treesChars, List.length_append,
        List.length_singleton] at hlength
      omega
  | [t], h =>
      simp only [treesTidy, and_true] at h
      simp only [treesRewritten, treesChars, List.append_nil] at hchars
      cases t with
      | text chars =>
          have hchars : chars = [c] := hchars
          rw [hchars]
      | gap _ =>
          obtain rfl : ' ' = c := by simpa [Tree.rewritten, Tree.chars] using hchars
          exact absurd hc (by decide)
      | stray =>
          obtain rfl : '}' = c := by simpa [Tree.rewritten, Tree.chars] using hchars
          exact absurd hc (by decide)
      | group _ _ => simp only [Tree.Tidy] at h
      | command head args missing =>
          simp only [Tree.Tidy] at h
          obtain ⟨hproper, htidy, hkind, -⟩ := h
          have hsplit : head.text ++
              argsChars (argsRewritten table head.name args) = [c] := hchars
          have htext : head.text = [c] := by
            rcases List.append_eq_singleton_iff.mp hsplit with ⟨hnil, -⟩ | ⟨htext, -⟩
            · exact absurd hnil hproper.text_ne_nil
            · exact htext
          exact absurd htext
            (text_of_head_ne_digit hproper htidy (hkind.imp_left And.left) hc)

/-- The enclosure of a script as it is written. -/
theorem formatModifier_treesChars {body : List Tree} (h : treesTidy table body) :
    formatModifier (treesChars (treesRewritten table body)) =
      (scriptEnclosure body).opening ++ (treesChars (treesRewritten table body) ++
        (scriptEnclosure body).closing) := by
  by_cases hdigit : ∃ c, treesChars (treesRewritten table body) = [c] ∧
    Text.isDigit c = true
  · obtain ⟨c, hchars, hc⟩ := hdigit
    obtain rfl := eq_text_of_digit h hchars hc
    simp [hchars, formatModifier, scriptEnclosure, hc,
      Enclosure.opening, Enclosure.closing]
  · have hbraced : formatModifier (treesChars (treesRewritten table body)) =
        braced (treesChars (treesRewritten table body)) := by
      unfold formatModifier
      split
      · next c hchars =>
        rw [if_neg fun hc => hdigit ⟨c, hchars, hc⟩, hchars]
      · rfl
    have henclosure : scriptEnclosure body = .braces true := by
      unfold scriptEnclosure
      split
      · next c =>
        exact if_neg fun hc => hdigit ⟨c, rfl, hc⟩
      · rfl
    rw [hbraced, henclosure]
    rfl

/-- What is written around an argument are the marks of its node. -/
theorem Enclosure.marks_toList (enclosure : Enclosure) :
    enclosure.marks.1.toList = enclosure.written.opening ∧
      enclosure.marks.2.toList = enclosure.written.closing := by
  rcases enclosure with _ | closed | (_ | _) <;>
    simp [Enclosure.marks, Enclosure.written, Enclosure.opening, Enclosure.closing]

mutual

/-- What is written for a tree is the text of the tree that is read again. -/
theorem Tree.chars_rewritten : (t : Tree) → (start : Nat) → t.Tidy table →
    (t.rewritten table).chars = nodeWritten table (t.node start)
  | .text _, _, _ => rfl
  | .gap lexeme, _, h => by
      simp only [Tree.Tidy] at h
      simp [Tree.rewritten, Tree.node, Tree.chars, h, nodeWritten]
  | .stray, _, _ => rfl
  | .group _ _, _, h => by simp only [Tree.Tidy] at h
  | .command head [] _, _, h => by
      simp only [Tree.Tidy] at h
      obtain ⟨hproper, htidy, hkind, -⟩ := h
      have htext := text_of_head hproper htidy (hkind.imp_left And.left)
      simp [Tree.rewritten, argsRewritten, Tree.chars, argsChars,
        Tree.node, argsArguments, nodeWritten, htext]
  | .command head (.mk before enclosure body :: rest) _, start, h => by
      simp only [Tree.Tidy, argsTidy] at h
      obtain ⟨hproper, htidy, hkind, hbody, hrest, hsingle, -⟩ := h
      have htext := text_of_head hproper htidy (hkind.imp_left And.left)
      have hwritten := treesChars_rewritten body
        (start + head.text.length + (lexemesText before).length +
          enclosure.opening.length) hbody
      simp only [Tree.rewritten, argsRewritten, Tree.chars, argsChars,
        Tree.node, argsArguments, nodeWritten, lexemesText_nil,
        List.nil_append, ← hwritten]
      cases hscript : isScriptName head.name with
      | true =>
          obtain rfl := hsingle (by simp [dropsMarks, hscript])
          rw [hscript] at htext
          simp [htext, writtenEnclosure, hscript,
            formatModifier_treesChars hbody, argsRewritten, argsChars]
      | false =>
          rw [hscript] at htext
          cases hdecorator : table.isDecorator head.name with
          | true =>
              obtain rfl := hsingle (by simp [dropsMarks, hdecorator])
              simp [htext, writtenEnclosure, hscript, hdecorator, braced,
                argsRewritten, argsChars, Enclosure.opening, Enclosure.closing]
          | false =>
              have hmarks := enclosure.marks_toList
              have hmore := argsChars_rewritten head.name rest
                (start + head.text.length +
                  (argsChars [.mk before enclosure body]).length)
                (by simp [dropsMarks, hscript, hdecorator]) hrest
              rw [hmore]
              simp [htext, writtenEnclosure, hscript, hdecorator, hmarks.1,
                hmarks.2, argsChars]

/-- **What is written for trees** is the text of the trees that are read again. -/
theorem treesChars_rewritten : (ts : List Tree) → (start : Nat) → treesTidy table ts →
    treesChars (treesRewritten table ts) = nodesWritten table (treesNodes start ts)
  | [], _, _ => rfl
  | t :: ts, start, h => by
      simp only [treesTidy] at h
      rw [treesRewritten, treesChars, treesNodes, nodesWritten,
        t.chars_rewritten start h.1, treesChars_rewritten ts (start + t.width) h.2]

/-- Tidy arguments that keep their marks are written anew as what is written for
their nodes. -/
theorem argsChars_rewritten (name : String) : (args : List Arg) → (start : Nat) →
    dropsMarks table name = false → argsTidy table name args →
      argsChars (argsRewritten table name args) =
        argumentsWritten table (argsArguments start args)
  | [], _, _, _ => rfl
  | .mk before enclosure body :: rest, start, hname, h => by
      simp only [argsTidy] at h
      have hmarks := enclosure.marks_toList
      have hbody := treesChars_rewritten body
        (start + (lexemesText before).length + enclosure.opening.length) h.1
      have hrest := argsChars_rewritten name rest
        (start + (argsChars [.mk before enclosure body]).length) hname h.2.1
      rw [argsRewritten, argsChars, argsArguments, argumentsWritten, hbody,
        hrest, hmarks.1, hmarks.2, writtenEnclosure_of_keepsMarks hname]
      simp

end

end Formulary.Markup
