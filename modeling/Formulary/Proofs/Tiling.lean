import Formulary.Proofs.Places
import Formulary.Proofs.Totality

/-!
# Nodes tile the source

The nodes of a document cover its source without gap and overlap, at the top and
inside of every group and every argument.  What a node must show at its place is said
in terms of nodes, tokens and warnings only (`Node.Covers`, `NodesTile`,
`ArgumentsTile`); the trees that the nodes are made from do not occur in it.

## Design notes

A node does not tell whether its closing mark is there, and the marks of an argument
in braces do not tell it either.  It is the warnings that do: a closing mark is
absent exactly when its opening mark was reported. So the induction over the trees
carries along which of the warnings belong to the part at hand (`WarnsWithin`): those
whose place lies in it.
-/

namespace Formulary.Markup

/-! ### What nodes show of a source -/

/-- The piece of a text between two offsets. -/
def slice (cs : List Char) (start stop : Nat) : List Char :=
  (cs.take stop).drop start

/-- A text stands in a source between two offsets. -/
def Spells (source : String) (start stop : Nat) (cs : List Char) : Prop :=
  start ≤ stop ∧ stop ≤ source.toList.length ∧ slice source.toList start stop = cs

/-- What was opened at an offset was reported as not terminated. -/
def Unterminated (warnings : List Warning) (position : Nat) : Prop :=
  ∃ w ∈ warnings, w.position = position ∧
    (w.complaint = .unterminatedGroup ∨ w.complaint = .unterminatedOptional)

/-- A closing mark stands between two offsets; it is absent if what it closes, opened
at the offset `opened`, is not terminated. -/
def Closes (source : String) (warnings : List Warning) (opened start stop : Nat)
    (mark : List Char) : Prop :=
  (Unterminated warnings opened → start = stop) ∧
    (¬ Unterminated warnings opened → Spells source start stop mark)

/-- Only blanks and comments stand between two offsets. -/
def OnlyGaps (source : String) (start stop : Nat) : Prop :=
  ∃ gaps : List Lexeme, (∀ l ∈ gaps, l.isGap) ∧
    (∀ t ∈ placeFrom start gaps, t ∈ tokenize source) ∧
      Spells source start stop (lexemesText gaps)

/-- The name of a command is the one that a token gives: a script mark, or what
follows a backslash. -/
def Token.Names (t : Token) (name : String) : Prop :=
  ((t.lexeme.kind = .subscript ∧ name = "_" ∨
    t.lexeme.kind = .superscript ∧ name = "^") ∧
      t.lexeme.text = name.toList) ∨
    ((t.lexeme.kind = .controlWord ∨ t.lexeme.kind = .controlSymbol) ∧
      t.lexeme.text = '\\' :: name.toList)

mutual

/-- A node covers the source between two offsets. -/
def Node.Covers (source : String) (warnings : List Warning)
    (start stop : Nat) : Node → Prop
  | .text content span => span = some ⟨start, stop⟩ ∧ Spells source start stop content
  | .blank content span => span = some ⟨start, stop⟩ ∧ Spells source start stop content
  | .comment content span =>
      span = some ⟨start, stop⟩ ∧ Spells source start stop content
  | .group children span =>
    span = some ⟨start, stop⟩ ∧ Spells source start (start + 1) ['{'] ∧
      ∃ middle, NodesTile source warnings (start + 1) middle children ∧
        Closes source warnings start middle stop ['}']
  | .command name args span =>
    span = some ⟨start, stop⟩ ∧
      ∃ t ∈ tokenize source, t.start = start ∧ t.Names name ∧
        Spells source start t.stop t.lexeme.text ∧
        ArgumentsTile source warnings t.stop stop args

/-- Nodes in a row cover the source between two offsets, each from where the one
before it ends. -/
def NodesTile (source : String) (warnings : List Warning)
    (start stop : Nat) : List Node → Prop
  | [] => start = stop
  | n :: ns =>
    ∃ middle, n.Covers source warnings start middle ∧
      NodesTile source warnings middle stop ns

/-- The arguments of a command cover the source between two offsets: blanks and
comments, the opening mark, the content and the closing mark of one after the
other. -/
def ArgumentsTile (source : String) (warnings : List Warning) (start stop : Nat) :
    List Argument → Prop
  | [] => start = stop
  | .mk opening closing content :: rest =>
    ∃ opened inner outer next, OnlyGaps source start opened ∧
      Spells source opened inner opening.toList ∧
      NodesTile source warnings inner outer content ∧
      Closes source warnings opened outer next closing.toList ∧
      ArgumentsTile source warnings next stop rest

end

/-- An argument takes up the source between two offsets, and starts at the offset
`opened` between them, behind blanks and comments. -/
def Argument.Occupies (source : String) (warnings : List Warning)
    (start opened next : Nat) :
    Argument → Prop
  | .mk opening closing content =>
    ∃ inner outer, OnlyGaps source start opened ∧
      Spells source opened inner opening.toList ∧
      NodesTile source warnings inner outer content ∧
      Closes source warnings opened outer next closing.toList

/-! ### Lexemes at a place of the source -/

/-- Lexemes stand in a source from an offset on. -/
def StandsAt (source : String) (start : Nat) (ls : List Lexeme) : Prop :=
  ∃ before after, lex source.toList = before ++ (ls ++ after) ∧
    (lexemesText before).length = start

namespace StandsAt

variable {source : String} {start : Nat} {ls ms : List Lexeme}

theorem left (h : StandsAt source start (ls ++ ms)) : StandsAt source start ls := by
  obtain ⟨before, after, hlex, hstart⟩ := h
  exact ⟨before, ms ++ after, by rw [hlex, List.append_assoc], hstart⟩

theorem right (h : StandsAt source start (ls ++ ms)) :
    StandsAt source (start + (lexemesText ls).length) ms := by
  obtain ⟨before, after, hlex, hstart⟩ := h
  exact ⟨before ++ ls, after, by rw [hlex, List.append_assoc, List.append_assoc],
    by simp [hstart]⟩

theorem tail {l : Lexeme} (h : StandsAt source start (l :: ls)) :
    StandsAt source (start + l.text.length) ls := by
  rw [← List.singleton_append] at h
  simpa using h.right

/-- Lexemes that stand at a place spell the source there. -/
theorem spells (h : StandsAt source start ls) :
    Spells source start (start + (lexemesText ls).length) (lexemesText ls) := by
  obtain ⟨before, after, hlex, rfl⟩ := h
  have htext : source.toList =
      lexemesText before ++ (lexemesText ls ++ lexemesText after) := by
    rw [← lexemesText_lex source.toList, hlex, lexemesText_append, lexemesText_append]
  refine ⟨Nat.le_add_right _ _, ?_, ?_⟩
  · rw [htext, List.length_append, List.length_append]
    omega
  · rw [slice, htext, List.take_length_add_append, List.take_left, List.drop_left]

/-- Lexemes that stand at a place are tokens of the source. -/
theorem mem_tokenize (h : StandsAt source start ls) :
    ∀ t ∈ placeFrom start ls, t ∈ tokenize source := by
  obtain ⟨before, after, hlex, rfl⟩ := h
  intro t ht
  rw [tokenize, hlex, placeFrom_append, placeFrom_append, Nat.zero_add]
  exact List.mem_append_right _ (List.mem_append_left _ ht)

theorem proper (h : StandsAt source start ls) : ∀ l ∈ ls, l.Proper := by
  obtain ⟨before, after, hlex, -⟩ := h
  intro l hl
  apply lex_proper source.toList
  rw [hlex]
  exact List.mem_append_right _ (List.mem_append_left _ hl)

theorem text_ne_nil (h : StandsAt source start ls) : ∀ l ∈ ls, l.text ≠ [] :=
  fun l hl => (h.proper l hl).text_ne_nil

end StandsAt

/-! ### Warnings about a part of the source -/

/-- The warnings about places between two offsets are the given ones. -/
def WarnsWithin (warnings : List Warning) (start stop : Nat)
    (own : List Warning) : Prop :=
  ∀ w : Warning, start ≤ w.position → w.position < stop → (w ∈ warnings ↔ w ∈ own)

/-- What is said of the warnings in a stretch holds in a part of it. -/
theorem WarnsWithin.narrow {warnings own part : List Warning}
    {start stop first last : Nat} (h : WarnsWithin warnings start stop own)
    (hfirst : start ≤ first) (hlast : last ≤ stop)
    (hpart : ∀ w : Warning, first ≤ w.position → w.position < last →
      (w ∈ own ↔ w ∈ part)) :
    WarnsWithin warnings first last part := by
  intro w hge hlt
  rw [h w (hfirst.trans hge) (hlt.trans_le hlast), hpart w hge hlt]

section Covering

variable {table : CommandTable} {source : String} {warnings : List Warning}

/-- A token names the command that it is the head of. -/
theorem Token.names_name {l : Lexeme} (hl : l.Proper)
    (hkind : l.kind = .controlSymbol ∨ l.kind = .controlWord ∨ l.kind = .subscript ∨
      l.kind = .superscript) (start : Nat) :
    (⟨l, start⟩ : Token).Names l.name := by
  obtain ⟨kind, text⟩ := l
  rcases hkind with hkind | hkind | hkind | hkind
  · obtain rfl : kind = _ := hkind
    obtain ⟨c, rfl, -⟩ := hl
    exact .inr ⟨.inr rfl, by simp [Lexeme.name]⟩
  · obtain rfl : kind = _ := hkind
    obtain ⟨cs, rfl, -⟩ := hl
    exact .inr ⟨.inl rfl, by simp [Lexeme.name]⟩
  · obtain rfl : kind = _ := hkind
    obtain ⟨c, rfl, hc⟩ := hl
    unfold Lexeme.startKind at hc
    split_ifs at hc with _ _ _ _ hmark
    subst hmark
    exact .inl ⟨.inl ⟨rfl, rfl⟩, rfl⟩
  · obtain rfl : kind = _ := hkind
    obtain ⟨c, rfl, hc⟩ := hl
    unfold Lexeme.startKind at hc
    split_ifs at hc with _ _ _ _ _ hmark
    subst hmark
    exact .inl ⟨.inr ⟨rfl, rfl⟩, rfl⟩

/-- A command covers its head and its arguments if these tile what stands behind the
head. -/
theorem command_covers {head : Lexeme} {args : List Arg} {missing : Bool} {start : Nat}
    (hkind : head.kind = .controlSymbol ∨ head.kind = .controlWord ∨
      head.kind = .subscript ∨
      head.kind = .superscript)
    (hat : StandsAt source start (head :: argsLexemes args))
    (hargs : ArgumentsTile source warnings (start + head.text.length)
      (start + (head.text.length + (argsChars args).length))
      (argsArguments (start + head.text.length) args)) :
    ((Tree.command head args missing).node start).Covers source warnings start
      (start + (Tree.command head args missing).chars.length) := by
  have hhead : StandsAt source start [head] := StandsAt.left hat
  have hspells := hhead.spells
  simp only [lexemesText_cons, lexemesText_nil, List.append_nil] at hspells
  simp only [Tree.node, Node.Covers, Tree.width, Tree.chars, List.length_append]
  exact ⟨trivial, ⟨head, start⟩, hhead.mem_tokenize _ (by simp [placeFrom]), rfl,
    Token.names_name (hhead.proper head (by simp)) hkind start, hspells, hargs⟩

theorem text_covers {chars : List Char} {start : Nat}
    (hat : StandsAt source start (charLexemes chars)) :
    ((Tree.text chars).node start).Covers source warnings start
      (start + chars.length) := by
  have hspells := hat.spells
  rw [lexemesText_charLexemes] at hspells
  simp only [Tree.node, Node.Covers]
  exact ⟨trivial, hspells⟩

theorem gap_covers {lexeme : Lexeme} {start : Nat}
    (hat : StandsAt source start [lexeme]) :
    ((Tree.gap lexeme).node start).Covers source warnings start
      (start + lexeme.text.length) := by
  have hspells := hat.spells
  simp only [lexemesText_cons, lexemesText_nil, List.append_nil] at hspells
  by_cases hkind : lexeme.kind = .comment
  · simp only [Tree.node, hkind, if_true, Node.Covers]
    exact ⟨trivial, hspells⟩
  · simp only [Tree.node, hkind, if_false, Node.Covers]
    exact ⟨trivial, hspells⟩

/-- A closing mark is absent exactly when the warnings say so. -/
theorem Enclosure.closes {enclosure : Enclosure} {opened start : Nat}
    (hown : enclosure.opening ≠ [] →
      ∀ w : Warning, w.position = opened →
        (w ∈ warnings ↔ w ∈ enclosure.warnings opened))
    (hat : StandsAt source start (charLexemes enclosure.closing)) :
    Closes source warnings opened start (start + enclosure.closing.length)
      enclosure.marks.2.toList := by
  have hspells := hat.spells
  rw [lexemesText_charLexemes] at hspells
  have hterminated : enclosure.opening ≠ [] → enclosure.warnings opened = [] →
      ¬ Unterminated warnings opened := by
    rintro hmark hnone ⟨w, hw, hposition, -⟩
    have := (hown hmark w hposition).mp hw
    simp [hnone] at this
  -- Unclosed brackets and bare arguments show no closing mark at all; unclosed
  -- braces show one, and there the warning decides.
  match enclosure, hown, hspells, hterminated with
  | .bare, _, hspells, _ => exact ⟨fun _ => rfl, fun _ => hspells⟩
  | .brackets false, _, hspells, _ => exact ⟨fun _ => rfl, fun _ => hspells⟩
  | .brackets true, _, hspells, hterminated =>
      exact ⟨fun h => absurd h (hterminated (by simp [Enclosure.opening]) rfl),
        fun _ => hspells⟩
  | .braces true, _, hspells, hterminated =>
      exact ⟨fun h => absurd h (hterminated (by simp [Enclosure.opening]) rfl),
        fun _ => hspells⟩
  | .braces false, hown, _, _ =>
      have hmem := (hown (by simp [Enclosure.opening])
        ⟨.unterminatedGroup, opened, ['{']⟩ rfl).mpr
        (List.mem_singleton_self _)
      exact ⟨fun _ => rfl, fun h => absurd ⟨_, hmem, rfl, .inl rfl⟩ h⟩

/-- A group covers its braces and its content, with a warning exactly if it is not
closed. -/
theorem group_covers {body : List Tree} {closed : Bool} {start : Nat}
    (hat : StandsAt source start (Tree.group body closed).lexemes)
    (hwarn : WarnsWithin warnings start (start + (Tree.group body closed).chars.length)
      ((Tree.group body closed).warnings start))
    (hbody : NodesTile source warnings (start + 1)
      (start + 1 + (treesChars body).length)
      (treesNodes (start + 1) body)) :
    ((Tree.group body closed).node start).Covers source warnings start
      (start + (Tree.group body closed).chars.length) := by
  have hopen : StandsAt source start [Lexeme.start '{'] := hat.left
  have hinner : StandsAt source (start + 1) (treesLexemes body) :=
    hat.tail.left
  have hclose : StandsAt source (start + 1 + (treesChars body).length)
      (charLexemes (Enclosure.braces closed).closing) := by
    rw [← lexemesText_treesLexemes]
    exact hat.tail.right
  have hown : ∀ w : Warning, w.position = start →
      (w ∈ warnings ↔ w ∈ (Enclosure.braces closed).warnings start) := by
    intro w hw
    have houtside : w ∉ treesWarnings (start + 1) body := fun hmem => by
      have := position_of_mem_treesWarnings body _ hinner.text_ne_nil w hmem
      omega
    rw [hwarn w (by omega) (by simp [Tree.chars, hw])]
    cases closed <;> simp [Tree.warnings, Enclosure.warnings, houtside]
  have hstop : start + (Tree.group body closed).chars.length =
      start + 1 + (treesChars body).length +
        (Enclosure.braces closed).closing.length := by
    simp only [Tree.chars, Enclosure.closing, List.length_cons, List.length_append]
    omega
  simp only [Tree.node, Node.Covers, Tree.width]
  refine ⟨trivial, hopen.spells, _, hbody, ?_⟩
  rw [hstop]
  simpa [Enclosure.marks] using Enclosure.closes (fun _ => hown) hclose

theorem length_argsChars_cons (before : List Lexeme)
    (enclosure : Enclosure) (body : List Tree) (args : List Arg) :
    (argsChars (.mk before enclosure body :: args)).length =
      (lexemesText before).length + enclosure.opening.length +
        (treesChars body).length +
        enclosure.closing.length + (argsChars args).length := by
  simp only [argsChars, List.length_append]
  omega

theorem length_argsChars_single (before : List Lexeme) (enclosure : Enclosure)
    (body : List Tree) :
    (argsChars [.mk before enclosure body]).length =
      (lexemesText before).length + enclosure.opening.length +
        (treesChars body).length +
        enclosure.closing.length := by
  rw [length_argsChars_cons, argsChars, List.length_nil, Nat.add_zero]

section Argument

variable {before : List Lexeme} {enclosure : Enclosure}
  {body : List Tree} {args : List Arg}
  {start : Nat}

/-- Where the parts of an argument and the arguments after it stand. -/
theorem StandsAt.argument
    (h : StandsAt source start (argsLexemes (.mk before enclosure body :: args))) :
    StandsAt source start before ∧
      StandsAt source (start + (lexemesText before).length)
        (charLexemes enclosure.opening) ∧
      StandsAt source (start + (lexemesText before).length + enclosure.opening.length)
        (treesLexemes body) ∧
      StandsAt source (start + (lexemesText before).length + enclosure.opening.length +
        (treesChars body).length) (charLexemes enclosure.closing) ∧
      StandsAt source (start + (argsChars [.mk before enclosure body]).length)
        (argsLexemes args) := by
  have hopened := StandsAt.right h
  have hinner := hopened.right
  have houter := hinner.right
  have hnext := houter.right
  rw [lexemesText_charLexemes] at hinner houter hnext
  rw [lexemesText_treesLexemes] at houter hnext
  rw [lexemesText_charLexemes] at hnext
  rw [length_argsChars_single, ← Nat.add_assoc, ← Nat.add_assoc, ← Nat.add_assoc]
  exact ⟨StandsAt.left h, hopened.left, hinner.left, houter.left, hnext⟩

/-- Which warnings are about the opening mark of an argument, about its content and
about the arguments after it. -/
theorem WarnsWithin.argument
    (hat : StandsAt source start (argsLexemes (.mk before enclosure body :: args)))
    (h : WarnsWithin warnings start
      (start + (argsChars (.mk before enclosure body :: args)).length)
      (argsWarnings start (.mk before enclosure body :: args))) :
    (enclosure.opening ≠ [] →
      ∀ w : Warning, w.position = start + (lexemesText before).length →
      (w ∈ warnings ↔ w ∈ enclosure.warnings (start + (lexemesText before).length))) ∧
    WarnsWithin warnings
      (start + (lexemesText before).length + enclosure.opening.length)
      (start + (lexemesText before).length + enclosure.opening.length +
        (treesChars body).length)
      (treesWarnings (start + (lexemesText before).length + enclosure.opening.length)
        body) ∧
    WarnsWithin warnings (start + (argsChars [.mk before enclosure body]).length)
      (start + (argsChars [.mk before enclosure body]).length + (argsChars args).length)
      (argsWarnings (start + (argsChars [.mk before enclosure body]).length) args) := by
  obtain ⟨-, -, hbody, -, hargs⟩ := hat.argument
  have hin := position_of_mem_treesWarnings body
    (start + (lexemesText before).length + enclosure.opening.length) hbody.text_ne_nil
  have hafter := position_of_mem_argsWarnings args
    (start + (argsChars [.mk before enclosure body]).length) hargs.text_ne_nil
  have hmark : ∀ w ∈ enclosure.warnings (start + (lexemesText before).length),
      w.position = start + (lexemesText before).length ∧ enclosure.opening.length = 1 :=
    fun w hw => Enclosure.position_of_mem_warnings hw
  have hnext := length_argsChars_single before enclosure body
  have hstop := length_argsChars_cons before enclosure body args
  -- The three parts of the warnings are about places that do not overlap.
  refine ⟨fun hne w hw => ?_, h.narrow (by omega) (by omega) fun w hge hlt => ?_,
    h.narrow (by omega) (by omega) fun w hge hlt => ?_⟩
  · have hlength := List.length_pos_of_ne_nil hne
    rw [h w (by omega) (by omega)]
    grind [argsWarnings]
  · grind [argsWarnings]
  · grind [argsWarnings]

/-- An argument occupies its marks and its content, with a warning exactly if it is
not closed. -/
theorem argument_occupies (hbefore : ∀ l ∈ before, l.isGap = true)
    (hat : StandsAt source start (argsLexemes (.mk before enclosure body :: args)))
    (hwarn : WarnsWithin warnings start
      (start + (argsChars (.mk before enclosure body :: args)).length)
      (argsWarnings start (.mk before enclosure body :: args)))
    (hbody : NodesTile source warnings
      (start + (lexemesText before).length + enclosure.opening.length)
      (start + (lexemesText before).length + enclosure.opening.length +
        (treesChars body).length)
      (treesNodes (start + (lexemesText before).length + enclosure.opening.length)
        body)) :
    (Argument.mk enclosure.marks.1 enclosure.marks.2
        (treesNodes (start + (lexemesText before).length + enclosure.opening.length)
          body)).Occupies
      source warnings start (start + (lexemesText before).length)
      (start + (argsChars [.mk before enclosure body]).length) := by
  obtain ⟨hgap, hopen, -, hclose, -⟩ := hat.argument
  have hopened := hopen.spells
  rw [lexemesText_charLexemes] at hopened
  have hmarks : enclosure.marks.1.toList = enclosure.opening := by
    cases enclosure <;> simp [Enclosure.marks, Enclosure.opening]
  rw [Argument.Occupies, hmarks, length_argsChars_single,
    ← Nat.add_assoc, ← Nat.add_assoc, ← Nat.add_assoc]
  exact ⟨_, _, ⟨before, hbefore, hgap.mem_tokenize, hgap.spells⟩, hopened, hbody,
    Enclosure.closes (hwarn.argument hat).1 hclose⟩

/-- Arguments tile their stretch one after the other, with layout between them. -/
theorem arguments_tile_cons (hbefore : ∀ l ∈ before, l.isGap = true)
    (hat : StandsAt source start (argsLexemes (.mk before enclosure body :: args)))
    (hwarn : WarnsWithin warnings start
      (start + (argsChars (.mk before enclosure body :: args)).length)
      (argsWarnings start (.mk before enclosure body :: args)))
    (hbody : NodesTile source warnings
      (start + (lexemesText before).length + enclosure.opening.length)
      (start + (lexemesText before).length + enclosure.opening.length +
        (treesChars body).length)
      (treesNodes (start + (lexemesText before).length + enclosure.opening.length)
        body))
    (hargs : ArgumentsTile source warnings
      (start + (argsChars [.mk before enclosure body]).length)
      (start + (argsChars [.mk before enclosure body]).length + (argsChars args).length)
      (argsArguments (start + (argsChars [.mk before enclosure body]).length) args)) :
    ArgumentsTile source warnings start
      (start + (argsChars (.mk before enclosure body :: args)).length)
      (argsArguments start (.mk before enclosure body :: args)) := by
  obtain ⟨inner, outer, hgaps, hopened, hcontent, hclose⟩ :=
    argument_occupies hbefore hat hwarn hbody
  rw [argsArguments, ArgumentsTile, length_argsChars_cons,
    ← length_argsChars_single, ← Nat.add_assoc]
  exact ⟨_, inner, outer, _, hgaps, hopened, hcontent, hclose, hargs⟩

end Argument

/-- A lexeme that is an argument by itself covers its text. -/
theorem atom_covers {l : Lexeme} {start : Nat}
    (hat : StandsAt source start (atom l).lexemes) :
    ((atom l).node start).Covers source warnings start
      (start + (atom l).chars.length) := by
  unfold atom at hat ⊢
  split_ifs at hat ⊢ with hkind
  · refine command_covers (by tauto) hat ?_
    simp [argsArguments, ArgumentsTile, argsChars]
  · exact text_covers hat

/-! ### The warnings of the parts of a tree -/

/-- The warnings within a group, but for one at its opening brace, are about its
content. -/
theorem WarnsWithin.group_body {body : List Tree} {closed : Bool} {start : Nat}
    (h : WarnsWithin warnings start (start + (Tree.group body closed).chars.length)
      ((Tree.group body closed).warnings start)) :
    WarnsWithin warnings (start + 1) (start + 1 + (treesChars body).length)
      (treesWarnings (start + 1) body) := by
  have hwidth : (Tree.group body closed).chars.length =
      1 + (treesChars body).length + (if closed then ['}'] else []).length := by
    simp only [Tree.chars, List.length_cons, List.length_append]
    omega
  refine h.narrow (by omega) (by omega) fun w hge _ => ?_
  -- The own warning of a group is about its opening brace.
  have hown : w ∉ (Enclosure.braces closed).warnings start := fun hw => by
    have := Enclosure.position_of_mem_warnings hw
    omega
  cases closed <;> simp_all [Tree.warnings, Enclosure.warnings]

/-- The warnings within a command, but for one at its head, are about its
arguments. -/
theorem WarnsWithin.command_args {head : Lexeme} {args : List Arg}
    {missing : Bool} {start : Nat} (hhead : head.text ≠ [])
    (h : WarnsWithin warnings start
      (start + (Tree.command head args missing).chars.length)
      ((Tree.command head args missing).warnings start)) :
    WarnsWithin warnings (start + head.text.length)
      (start + head.text.length + (argsChars args).length)
      (argsWarnings (start + head.text.length) args) := by
  have hlength : 0 < head.text.length := List.length_pos_of_ne_nil hhead
  refine h.narrow (by omega) (by simp [Tree.chars]; omega) fun w hge _ => ?_
  -- A missing argument is reported where the command starts.
  have hown : w ≠ ⟨.missingArgument, start, head.text⟩ := fun hw => by
    rw [hw] at hge
    simp only at hge
    omega
  cases missing <;> simp [Tree.warnings, hown]

theorem StandsAt.trees_cons {t : Tree} {ts : List Tree} {start : Nat}
    (h : StandsAt source start (treesLexemes (t :: ts))) :
    StandsAt source start t.lexemes ∧
      StandsAt source (start + t.chars.length) (treesLexemes ts) := by
  refine ⟨StandsAt.left h, ?_⟩
  rw [← t.lexemesText_lexemes]
  exact StandsAt.right h

/-- The warnings of the first tree end where those of the others begin. -/
theorem WarnsWithin.trees_cons {t : Tree} {ts : List Tree} {start : Nat}
    (hat : StandsAt source start (treesLexemes (t :: ts)))
    (h : WarnsWithin warnings start (start + (treesChars (t :: ts)).length)
      (treesWarnings start (t :: ts))) :
    WarnsWithin warnings start (start + t.chars.length) (t.warnings start) ∧
      WarnsWithin warnings (start + t.chars.length)
        (start + t.chars.length + (treesChars ts).length)
        (treesWarnings (start + t.chars.length) ts) := by
  obtain ⟨hfirst, hsecond⟩ := hat.trees_cons
  have hin := t.position_of_mem_warnings start hfirst.text_ne_nil
  have hafter := position_of_mem_treesWarnings ts
    (start + t.chars.length) hsecond.text_ne_nil
  simp only [treesChars, List.length_append, treesWarnings, Tree.width,
    ← Nat.add_assoc] at h
  constructor
  · refine h.narrow le_rfl (by omega) fun w _ hlt => ?_
    grind
  · refine h.narrow (by omega) le_rfl fun w hge _ => ?_
    grind

/-! ### The induction over the trees -/

mutual

/-- The node of a tree covers its stretch of the source. -/
theorem Tree.node_covers :
    (t : Tree) → (start : Nat) → (scope : Scope) → (mode : Mode) →
    (rest : List Lexeme) → t.Reads table scope mode rest →
    StandsAt source start t.lexemes →
      WarnsWithin warnings start (start + t.chars.length) (t.warnings start) →
      (t.node start).Covers source warnings start (start + t.chars.length)
  | .text chars, start, _, _, _, _, hat, _ => text_covers hat
  | .gap lexeme, start, _, _, _, _, hat, _ => gap_covers hat
  | .stray, start, _, _, _, _, hat, _ =>
      have hbrace : StandsAt source start (charLexemes ['}']) := hat
      text_covers hbrace
  | .group body closed, start, _, mode, rest, hreads, hat, hwarn => by
      simp only [Tree.Reads] at hreads
      have hinner : StandsAt source (start + 1) (treesLexemes body) :=
        hat.tail.left
      exact group_covers hat hwarn
        (treesNodes_tile body (start + 1) _ _ _ hreads.1 hinner hwarn.group_body)
  | .command head args missing, start, _, mode, rest, hreads, hat, hwarn => by
      simp only [Tree.Reads] at hreads
      rcases hreads with ⟨hkind, rfl, rfl⟩ | ⟨hkind, hargs⟩
      · refine command_covers (.inl hkind) hat ?_
        simp [argsArguments, ArgumentsTile, argsChars]
      · have hafter : StandsAt source (start + head.text.length) (argsLexemes args) :=
          hat.tail
        refine command_covers (.inr hkind) hat ?_
        rw [← Nat.add_assoc]
        exact argsArguments_tile args _ _ _ rest missing hargs hafter
          (hwarn.command_args (hat.text_ne_nil head (by simp)))

/-- **Nodes cover what their trees were read from.** -/
theorem treesNodes_tile :
    (ts : List Tree) → (start : Nat) → (scope : Scope) → (mode : Mode) →
    (rest : List Lexeme) → treesRead table scope mode rest ts →
    StandsAt source start (treesLexemes ts) →
      WarnsWithin warnings start (start + (treesChars ts).length)
        (treesWarnings start ts) →
      NodesTile source warnings start (start + (treesChars ts).length)
        (treesNodes start ts)
  | [], start, _, _, _, _, _, _ => by simp [treesNodes, NodesTile, treesChars]
  | t :: ts, start, scope, mode, rest, hreads, hat, hwarn => by
      simp only [treesRead] at hreads
      obtain ⟨hfirst, hsecond⟩ := hat.trees_cons
      obtain ⟨hin, hafter⟩ := hwarn.trees_cons hat
      rw [treesNodes, NodesTile, Tree.width, treesChars,
        List.length_append, ← Nat.add_assoc]
      exact ⟨_, t.node_covers start scope mode _ hreads.1 hfirst hin,
        treesNodes_tile ts _ scope mode rest hreads.2 hsecond hafter⟩

/-- The arguments of a command tile their stretch of the source. -/
theorem argsArguments_tile : (args : List Arg) → (start : Nat) → (mode : Mode) →
    (slots : List Slot) → (rest : List Lexeme) → (missing : Bool) →
    argsRead table mode slots rest missing args →
    StandsAt source start (argsLexemes args) →
      WarnsWithin warnings start (start + (argsChars args).length)
        (argsWarnings start args) →
      ArgumentsTile source warnings start (start + (argsChars args).length)
        (argsArguments start args)
  | [], start, _, _, _, _, _, _, _ => by simp [argsArguments, ArgumentsTile, argsChars]
  | .mk before enclosure body :: args, start, mode, slots, rest, missing,
      hreads, hat, hwarn => by
      obtain ⟨hbefore, -, hcontent, left, hargs⟩ := argsRead_cons hreads
      obtain ⟨-, -, hinner, -, hnext⟩ := hat.argument
      obtain ⟨-, hin, hafter⟩ := hwarn.argument hat
      refine arguments_tile_cons hbefore hat hwarn ?_
        (argsArguments_tile args _ mode left rest missing hargs hnext hafter)
      rcases hcontent with ⟨scope, -, hbody⟩ | ⟨slots', left', hbody⟩
      · exact treesNodes_tile body _ scope mode _ hbody hinner hin
      · exact bareNodes_tile body _ mode slots' left' _ hbody hinner hin

theorem bareNodes_tile : (body : List Tree) → (start : Nat) → (mode : Mode) →
    (slots left : List Slot) → (rest : List Lexeme) →
    bareReads table mode slots left rest body →
    StandsAt source start (treesLexemes body) →
      WarnsWithin warnings start (start + (treesChars body).length)
        (treesWarnings start body) →
      NodesTile source warnings start (start + (treesChars body).length)
        (treesNodes start body)
  | [], _, _, _, _, _, hreads, _, _ => by simp only [bareReads] at hreads
  | [t], start, mode, _, _, rest, hreads, hat, hwarn => by
      simp only [treesLexemes, treesChars, treesWarnings, List.append_nil] at hat hwarn
      simp only [treesNodes, treesChars, NodesTile, List.append_nil]
      refine ⟨_, ?_, rfl⟩
      simp only [bareReads] at hreads
      obtain ⟨l, -, ⟨-, -, rfl⟩ | ⟨-, ⟨-, ht⟩ | ⟨-, rfl⟩⟩⟩ := hreads
      · exact atom_covers hat
      · exact t.node_covers start .top mode rest ht hat hwarn
      · exact atom_covers hat
  | _ :: _ :: _, _, _, _, _, _, hreads, _, _ => by simp only [bareReads] at hreads

end

/-- The nodes of an argument cover its content, between marks or without them. -/
theorem contentNodes_tile {mode : Mode} {rest : List Lexeme}
    {body : List Tree} {start : Nat} (h : contentReads table mode rest body)
    (hat : StandsAt source start (treesLexemes body))
    (hwarn : WarnsWithin warnings start (start + (treesChars body).length)
      (treesWarnings start body)) :
    NodesTile source warnings start (start + (treesChars body).length)
      (treesNodes start body) := by
  rcases h with ⟨scope, -, hbody⟩ | ⟨slots, left, hbody⟩
  · exact treesNodes_tile body start scope mode rest hbody hat hwarn
  · exact bareNodes_tile body start mode slots left rest hbody hat hwarn

end Covering

/-- **The nodes of a document tile its source.** -/
theorem nodes_tile_source (table : CommandTable) (source : String) :
    NodesTile source (parse table source).warnings 0 source.toList.length
      (parse table source).nodes := by
  have hat : StandsAt source 0 (treesLexemes (parse table source).trees) :=
    ⟨[], [], by rw [parse_lexemes, List.append_nil, List.nil_append], rfl⟩
  have htile := treesNodes_tile (parse table source).trees 0 .top .math []
    (parse_reads table source) hat (fun _ _ _ => Iff.rfl)
  rwa [parse_chars, Nat.zero_add] at htile

end Formulary.Markup
