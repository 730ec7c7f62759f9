import Formulary.Proofs.Places
import Formulary.Proofs.Totality

/-!
# The symbols of a source

A symbol is a letter, or a control word with a name that counts.  Which names count
is a parameter: those of letters, or those of letters and decorators.  The symbols
can be read off the lexemes of a source and off its nodes, and they are the same ones
in the same order; so nothing between the two loses or makes one.

* `lexemesSymbols` and `nodesSymbols` list symbols.
* `parse_nodesSymbols` says that the two lists are equal.
-/

namespace Formulary.Markup

/-! ### Symbols among lexemes -/

/-- Whether a lexeme is a symbol. -/
def Lexeme.isSymbol (counts : String → Bool) (l : Lexeme) : Bool :=
  l.kind = .letter || (l.kind = .controlWord && counts l.name)

/-- The texts of the symbols among lexemes. -/
def lexemesSymbols (counts : String → Bool) (ls : List Lexeme) : List (List Char) :=
  (ls.filter (·.isSymbol counts)).map Lexeme.text

variable {counts : String → Bool}

@[simp] theorem lexemesSymbols_nil : lexemesSymbols counts [] = [] := rfl

@[simp] theorem lexemesSymbols_append (ls ms : List Lexeme) :
    lexemesSymbols counts (ls ++ ms) = lexemesSymbols counts ls ++
      lexemesSymbols counts ms := by
  simp [lexemesSymbols]

theorem lexemesSymbols_cons (l : Lexeme) (ls : List Lexeme) :
    lexemesSymbols counts (l :: ls) = lexemesSymbols counts [l] ++
      lexemesSymbols counts ls :=
  lexemesSymbols_append [l] ls

/-- The symbols of lexemes are the texts of those that are symbols. -/
theorem mem_lexemesSymbols {s : List Char} {ls : List Lexeme} :
    s ∈ lexemesSymbols counts ls ↔ ∃ l ∈ ls, l.isSymbol counts = true ∧ l.text = s := by
  simp [lexemesSymbols, and_assoc]

theorem lexemesSymbols_eq_nil {ls : List Lexeme}
    (h : ∀ l ∈ ls, l.isSymbol counts = false) :
    lexemesSymbols counts ls = [] := by
  have hnone : ls.filter (·.isSymbol counts) = [] := by simpa using h
  rw [lexemesSymbols, hnone, List.map_nil]

theorem isSymbol_of_isGap {l : Lexeme} (h : l.isGap = true) :
    l.isSymbol counts = false := by
  simp only [Lexeme.isGap, Bool.or_eq_true, decide_eq_true_eq] at h
  rcases h with h | h <;> simp [Lexeme.isSymbol, h]

/-! ### Letters -/

theorem isAlpha_of_startKind {c : Char}
    (h : Lexeme.startKind c = .letter) : c.isAlpha = true :=
  Lexeme.opens_of_startKind h

theorem toNat_of_isAlpha {c : Char} (h : c.isAlpha = true) :
    (65 ≤ c.toNat ∧ c.toNat ≤ 90) ∨ (97 ≤ c.toNat ∧ c.toNat ≤ 122) := by
  have hletters : c.isAlpha = (decide ('A'.val ≤ c.val ∧ c.val ≤ 'Z'.val) ||
      (decide ('a'.val ≤ c.val) && decide (c.val ≤ 'z'.val))) := rfl
  rw [hletters] at h
  simpa [UInt32.le_iff_toNat_le, Char.toNat_val] using h

theorem isBlank_of_isAlpha {c : Char} (h : c.isAlpha = true) :
    Text.isBlank c = false := by
  have hrange := toNat_of_isAlpha h
  by_contra hblank
  simp only [Text.isBlank, Bool.not_eq_false, Bool.or_eq_true,
    Bool.and_eq_true, decide_eq_true_eq, beq_iff_eq] at hblank
  omega

theorem startKind_of_isAlpha {c : Char} (h : c.isAlpha = true) :
    Lexeme.startKind c = .letter := by
  have hne : ∀ d : Char, d.isAlpha = false → c ≠ d := by
    rintro d hd rfl
    simp [hd] at h
  simp [Lexeme.startKind, hne '%' (by decide), isBlank_of_isAlpha h,
    hne '{' (by decide), hne '}' (by decide), hne '_' (by decide),
    hne '^' (by decide), h]

@[simp] theorem Lexeme.text_start (c : Char) : (Lexeme.start c).text = [c] := rfl

/-- A single character is a symbol if it is a letter. -/
theorem isSymbol_start (c : Char) : (Lexeme.start c).isSymbol counts = c.isAlpha := by
  have hword : Lexeme.startKind c ≠ .controlWord := startKind_ne_controlWord c
  cases h : c.isAlpha with
  | true => simp [Lexeme.isSymbol, Lexeme.start, startKind_of_isAlpha h]
  | false =>
      have hletter : Lexeme.startKind c ≠ .letter := fun hkind => by
        simp [isAlpha_of_startKind hkind] at h
      simp [Lexeme.isSymbol, Lexeme.start, hword, hletter]

/-- The symbols in a stretch of text are its letters. -/
theorem lexemesSymbols_charLexemes (chars : List Char) :
    lexemesSymbols counts (charLexemes chars) =
      (chars.filter Char.isAlpha).map ([·]) := by
  induction chars with
  | nil => rfl
  | cons c cs ih =>
      have hc : lexemesSymbols counts [Lexeme.start c] =
          if c.isAlpha then [[c]] else [] := by
        cases h : c.isAlpha <;> simp [lexemesSymbols, isSymbol_start, h]
      rw [charLexemes_cons, lexemesSymbols_cons, ih, hc]
      cases h : c.isAlpha <;> simp [h]

theorem lexemesSymbols_marks (enclosure : Enclosure) :
    lexemesSymbols counts (charLexemes enclosure.opening) = [] ∧
      lexemesSymbols counts (charLexemes enclosure.closing) = [] := by
  simp only [lexemesSymbols_charLexemes]
  rcases enclosure with _ | (_ | _) | (_ | _) <;> exact ⟨rfl, rfl⟩

/-! ### Symbols of nodes -/

mutual

/-- The symbols that a node shows. -/
def Node.symbols (counts : String → Bool) : Node → List (List Char)
  | .text content _ => (content.filter Char.isAlpha).map ([·])
  | .blank _ _ => []
  | .comment _ _ => []
  | .group children _ => nodesSymbols counts children
  | .command name args _ =>
    (if counts name then ['\\' :: name.toList] else []) ++ argumentsSymbols counts args

/-- The symbols that nodes in a row show. -/
def nodesSymbols (counts : String → Bool) : List Node → List (List Char)
  | [] => []
  | n :: ns => n.symbols counts ++ nodesSymbols counts ns

/-- The symbols that the arguments of a command show. -/
def argumentsSymbols (counts : String → Bool) : List Argument → List (List Char)
  | [] => []
  | .mk _ _ content :: rest =>
      nodesSymbols counts content ++ argumentsSymbols counts rest

end

/-! ### The same symbols -/

/-- The name of a control symbol or of a script mark has no letters in it. -/
theorem exists_not_isAlpha_of_mem_name {l : Lexeme} (hl : l.Proper)
    (hkind : l.kind = .controlSymbol ∨ l.kind = .subscript ∨ l.kind = .superscript) :
    ∃ c ∈ l.name.toList, c.isAlpha = false := by
  obtain ⟨kind, text⟩ := l
  rcases hkind with hkind | hkind | hkind
  all_goals
    obtain rfl : kind = _ := hkind
    obtain ⟨c, rfl, hc⟩ := hl
    refine ⟨c, by simp [Lexeme.name], ?_⟩
  · simpa using hc
  all_goals
    by_contra halpha
    simp [startKind_of_isAlpha (by simpa using halpha)] at hc

theorem text_eq_of_controlWord {l : Lexeme} (hl : l.Proper)
    (hkind : l.kind = .controlWord) :
    l.text = '\\' :: l.name.toList := by
  obtain ⟨kind, text⟩ := l
  obtain rfl : kind = .controlWord := hkind
  obtain ⟨cs, rfl, -, -⟩ := hl
  simp [Lexeme.name]

variable {table : CommandTable}

/-- The names that count are made of letters. -/
def WordNames (counts : String → Bool) : Prop :=
  ∀ name, counts name = true → ∀ c ∈ name.toList, c.isAlpha = true

/-- The head of a command is a symbol if its name counts. -/
theorem lexemesSymbols_head (hcounts : WordNames counts) {head : Lexeme}
    (hhead : head.Proper) (hkind : head.kind = .controlWord ∨
      head.kind = .controlSymbol ∨ head.kind = .subscript ∨ head.kind = .superscript) :
    lexemesSymbols counts [head] =
      if counts head.name then ['\\' :: head.name.toList] else [] := by
  rcases hkind with hkind | hkind
  · cases h : counts head.name <;>
      simp [lexemesSymbols, Lexeme.isSymbol, hkind, h,
        text_eq_of_controlWord hhead hkind]
  · obtain ⟨c, hc, halpha⟩ := exists_not_isAlpha_of_mem_name hhead hkind
    have hname : counts head.name = false := by
      by_contra h
      simp [hcounts head.name (by simpa using h) c hc] at halpha
    rcases hkind with hkind | hkind | hkind <;>
      simp [lexemesSymbols, Lexeme.isSymbol, hkind, hname]

/-- A lexeme that is an argument by itself has the same symbols as its node. -/
theorem symbols_atom (hcounts : WordNames counts) {l : Lexeme}
    (hproper : l.Proper) (start : Nat) :
    ((atom l).node start).symbols counts = lexemesSymbols counts (atom l).lexemes := by
  unfold atom
  split_ifs with hkind
  · have hhead := lexemesSymbols_head hcounts hproper (hkind.imp_right .inl)
    simp [Tree.plain, Tree.node, Node.symbols, argsArguments, argumentsSymbols, hhead]
  · simp [Tree.node, Node.symbols, lexemesSymbols_charLexemes]

mutual

/-- The symbols of a tree can be read off its node or its lexemes. -/
theorem Tree.symbols_node (hcounts : WordNames counts) : (t : Tree) → (start : Nat) →
    (scope : Scope) → (mode : Mode) → (rest : List Lexeme) →
    t.Reads table scope mode rest → (∀ l ∈ t.lexemes, l.Proper) →
      (t.node start).symbols counts = lexemesSymbols counts t.lexemes
  | .text chars, _, _, _, _, _, _ => (lexemesSymbols_charLexemes chars).symm
  | .gap lexeme, start, _, _, _, hreads, _ => by
      simp only [Tree.Reads] at hreads
      have hnone : (Tree.node start (.gap lexeme)).symbols counts = [] := by
        unfold Tree.node
        split_ifs <;> rfl
      rw [hnone, Tree.lexemes,
        lexemesSymbols_eq_nil (by simpa using isSymbol_of_isGap hreads)]
  | .stray, _, _, _, _, _, _ => rfl
  | .group body closed, start, _, mode, rest, hreads, hproper => by
      simp only [Tree.Reads] at hreads
      have hbody := nodesSymbols_treesNodes hcounts body (start + 1)
        .braces mode _ hreads.1
        fun l hl => hproper l (by simp [hl])
      rw [Tree.node, Node.symbols, hbody, Tree.lexemes, lexemesSymbols_cons,
        lexemesSymbols_append,
        (lexemesSymbols_marks (.braces closed)).2, List.append_nil]
      rfl
  | .command head args missing, start, _, mode, rest, hreads, hproper => by
      have hhead : head.Proper := hproper head (by simp)
      simp only [Tree.Reads] at hreads
      rw [Tree.node, Node.symbols, Tree.lexemes, lexemesSymbols_cons]
      rcases hreads with ⟨hkind, rfl, -⟩ | ⟨hkind, hargs⟩
      · rw [lexemesSymbols_head hcounts hhead (.inr (.inl hkind))]
        rfl
      · rw [lexemesSymbols_head hcounts hhead (hkind.imp_right .inr),
          argumentsSymbols_argsArguments hcounts args _ _ _ rest missing hargs
            fun l hl => hproper l (by simp [hl])]

/-- The symbols of trees can be read off their nodes or their lexemes. -/
theorem nodesSymbols_treesNodes (hcounts : WordNames counts) :
    (ts : List Tree) → (start : Nat) → (scope : Scope) → (mode : Mode) →
    (rest : List Lexeme) → treesRead table scope mode rest ts →
      (∀ l ∈ treesLexemes ts, l.Proper) →
      nodesSymbols counts (treesNodes start ts) =
        lexemesSymbols counts (treesLexemes ts)
  | [], _, _, _, _, _, _ => rfl
  | t :: ts, start, scope, mode, rest, hreads, hproper => by
      simp only [treesRead] at hreads
      rw [treesNodes, nodesSymbols, treesLexemes, lexemesSymbols_append,
        t.symbols_node hcounts start scope mode _ hreads.1 fun l hl =>
          hproper l (by simp [hl]),
          nodesSymbols_treesNodes hcounts ts _ scope mode rest hreads.2
          fun l hl => hproper l (by simp [hl])]

/-- The symbols of arguments can be read off either form. -/
theorem argumentsSymbols_argsArguments (hcounts : WordNames counts) :
    (args : List Arg) → (start : Nat) → (mode : Mode) → (slots : List Slot) →
    (rest : List Lexeme) → (missing : Bool) →
      argsRead table mode slots rest missing args → (∀ l ∈ argsLexemes args, l.Proper) →
      argumentsSymbols counts (argsArguments start args) =
        lexemesSymbols counts (argsLexemes args)
  | [], _, _, _, _, _, _, _ => rfl
  | .mk before enclosure body :: args, start, mode, slots, rest, missing,
      hreads, hproper => by
      obtain ⟨hbefore, -, hcontent, left, hargs⟩ := argsRead_cons hreads
      have hgap : lexemesSymbols counts before = [] :=
        lexemesSymbols_eq_nil fun l hl => isSymbol_of_isGap (hbefore l hl)
      have hinside : ∀ l ∈ treesLexemes body, l.Proper :=
        fun l hl => hproper l (by simp [hl])
      have hbody : nodesSymbols counts (treesNodes
          (start + (lexemesText before).length + enclosure.opening.length) body) =
          lexemesSymbols counts (treesLexemes body) := by
        rcases hcontent with ⟨scope, -, hbody⟩ | ⟨slots', left', hbody⟩
        · exact nodesSymbols_treesNodes hcounts body _ scope mode _ hbody hinside
        · exact bareSymbols hcounts body _ mode slots' left' _ hbody hinside
      rw [argsArguments, argumentsSymbols, hbody,
        argumentsSymbols_argsArguments hcounts args _ mode left
        rest missing hargs fun l hl => hproper l (by simp [hl])]
      simp [hgap, lexemesSymbols_marks enclosure]

theorem bareSymbols (hcounts : WordNames counts) : (body : List Tree) → (start : Nat) →
    (mode : Mode) → (slots left : List Slot) → (rest : List Lexeme) →
    bareReads table mode slots left rest body → (∀ l ∈ treesLexemes body, l.Proper) →
      nodesSymbols counts (treesNodes start body) =
        lexemesSymbols counts (treesLexemes body)
  | [], _, _, _, _, _, hreads, _ => by simp only [bareReads] at hreads
  | [t], start, mode, _, _, rest, hreads, hproper => by
      simp only [bareReads] at hreads
      simp only [treesNodes, nodesSymbols, treesLexemes, List.append_nil] at hproper ⊢
      have hhead : ∀ l ∈ t.lexemes.head?, l.Proper :=
        fun l hl => hproper l (List.mem_of_mem_head? hl)
      obtain ⟨l, hl, ⟨-, -, rfl⟩ | ⟨-, ⟨-, ht⟩ | ⟨-, rfl⟩⟩⟩ := hreads
      · exact symbols_atom hcounts (hhead l hl) start
      · exact t.symbols_node hcounts start .top mode rest ht hproper
      · exact symbols_atom hcounts (hhead l hl) start
  | _ :: _ :: _, _, _, _, _, _, hreads, _ => by simp only [bareReads] at hreads

end

/-- **The nodes of a source show the symbols of its lexemes.** -/
theorem parse_nodesSymbols (hcounts : WordNames counts)
    (table : CommandTable) (source : String) :
    nodesSymbols counts (parse table source).nodes =
      lexemesSymbols counts (lex source.toList) := by
  have hlex := parse_lexemes table source
  rw [Document.nodes,
    nodesSymbols_treesNodes hcounts _ 0 .top .math [] (parse_reads table source)
    (fun l hl => lex_proper source.toList l (hlex ▸ hl)), hlex]

end Formulary.Markup
