import Formulary.Command.Standard
import Formulary.Proofs.Splitting

/-!
# Editing the end of an equation

What stands behind a separator of an equation has no influence on what stands in
front of it: the text behind the equals sign may be replaced by any other and the
declaration stays, and the text behind the comma by any other and only the constraint
changes.

Two things have to be seen for this.  A separator is a lexeme on its own whatever
follows it, so the lexemes in front of it stay.  And no tree in front of it can look
past it: all that a reading sees of what follows is the first lexeme and the first
one behind blanks and comments (`SameLookahead`), and a separator is both.

* `treesRead_of_sameLookahead` is the second of these.
* `parse_trees_edited` reads a source that was edited behind a separator.
* `parts_of_edited` is the main statement.
-/

namespace Formulary.Markup

variable {table : CommandTable}

/-! ### What a reading sees of what follows it -/

/-- Two continuations of a source that nothing in front of them can tell apart: they
start with the same lexeme, and with the same one behind blanks and comments. -/
structure SameLookahead (rest' rest : List Lexeme) : Prop where
  head : rest'.head? = rest.head?
  ahead : ahead rest' = ahead rest

namespace SameLookahead

variable {rest rest' : List Lexeme}

/-- A lexeme that is no blank and no comment hides what follows it. -/
theorem of_cons {l : Lexeme} (hl : l.isGap = false) (ls' ls : List Lexeme) :
    SameLookahead (l :: ls') (l :: ls) where
  head := rfl
  ahead := by rw [ahead_cons_of_not_isGap hl, ahead_cons_of_not_isGap hl]

theorem eq_nil (h : SameLookahead rest' rest) (hrest : rest = []) : rest' = [] := by
  have hhead := h.head
  rw [hrest, List.head?_nil] at hhead
  exact List.head?_eq_none_iff.mp hhead

/-- What looks the same ahead may be put in place of what stands there. -/
theorem replaces (h : SameLookahead rest' rest) : Replaces rest' rest where
  head m hm := .inr ⟨m, h.head ▸ hm, rfl⟩
  ahead _ hm := .inr (h.ahead ▸ hm)

end SameLookahead

/-- A reading looks at most one lexeme ahead, over blanks and comments. -/
theorem treesRead_of_sameLookahead {scope : Scope} {mode : Mode}
    {rest rest' : List Lexeme} (ts : List Tree) (h : SameLookahead rest' rest)
    (hreads : treesRead table scope mode rest ts) :
    treesRead table scope mode rest' ts :=
  treesRead_of_replaces ts 0 scope mode rest rest' h.replaces (.inl h.eq_nil) hreads

/-! ### Editing behind a separator -/

/-- Characters that are lexemes and trees on their own wherever they stand: those
that are no letter, digit, blank or mark, and no backslash. -/
def IsSeparator (c : Char) : Prop :=
  Lexeme.startKind c = .other ∧ c ≠ '\\'

namespace IsSeparator

variable {c : Char}

theorem isGap_start (h : IsSeparator c) : (Lexeme.start c).isGap = false := by
  simp [Lexeme.isGap, Lexeme.start, h.1]

/-- A separator does not grow together with what follows. -/
theorem apart (h : IsSeparator c) (next : Lexeme) : (Lexeme.start c).Apart next := by
  intro d _
  simp [Lexeme.start, Lexeme.extend?, Lexeme.extendKind?, h.1, h.2]

theorem reads (h : IsSeparator c) (rest : List Lexeme) :
    (Tree.text [c]).Reads table .top .math rest := by
  simp only [Tree.Reads, readsText]
  refine ⟨by simp, .inl ⟨c, rfl, ?_, ?_⟩⟩
  · simp [LexemeKind.isText, h.1]
  · simp [Mode.joins, h.1]

end IsSeparator

/-- The lexemes of a text that was edited behind a separator. -/
theorem lex_edited {c : Char} (hc : IsSeparator c) {cs : List Char}
    {ls ms : List Lexeme} (h : lex cs = ls ++ Lexeme.start c :: ms) (edit : List Char) :
    lex (lexemesText ls ++ c :: edit) = ls ++ Lexeme.start c :: lex edit := by
  obtain ⟨-, hproper, hapart⟩ := lex_eq_iff.mp h
  obtain ⟨hfirst, -, hlast⟩ := List.isChain_append.mp hapart
  refine lex_eq_iff.mpr ⟨?_, ?_, List.isChain_append.mpr ⟨hfirst, ?_, ?_⟩⟩
  · rw [lexemesText_append, lexemesText_cons, lexemesText_lex]
    rfl
  · intro l hl
    rcases List.mem_append.mp hl with hl | hl
    · exact hproper l (List.mem_append_left _ hl)
    · rcases List.mem_cons.mp hl with rfl | hl
      · exact Lexeme.start_proper c
      · exact lex_proper edit l hl
  · exact List.isChain_cons.mpr ⟨fun next _ => hc.apart next, lex_apart edit⟩
  · intro l hl next hnext
    exact hlast l hl next hnext

/-- **A source may be edited behind a separator**: the trees in front of it stay, and
the new text is read as it is on its own. -/
theorem parse_trees_edited {c : Char} (hc : IsSeparator c)
    {source : String} {ts us : List Tree}
    (h : (parse table source).trees = ts ++ .text [c] :: us) (edit : String) :
    (parse table (String.ofList (treesChars ts ++ c :: edit.toList))).trees =
      ts ++ .text [c] :: (parse table edit).trees := by
  have hlex := parse_lexemes table source
  rw [h, treesLexemes_append] at hlex
  have hreads := parse_reads table source
  rw [h, treesRead_append] at hreads
  have hedited : treesRead table .top .math []
      (ts ++ .text [c] :: (parse table edit).trees) := by
    refine treesRead_append.mpr ⟨?_, ?_⟩
    · exact treesRead_of_sameLookahead ts (.of_cons hc.isGap_start _ _) hreads.1
    · rw [treesRead]
      exact ⟨hc.reads _, parse_reads table edit⟩
  have hlexemes : treesLexemes (ts ++ .text [c] :: (parse table edit).trees) =
      lex (treesChars ts ++ c :: edit.toList) := by
    rw [treesLexemes_append, ← lexemesText_treesLexemes ts, lex_edited hc hlex.symm]
    simp [parse_lexemes]
  rw [parse, String.toList_ofList, ← hlexemes]
  exact readTrees_treesLexemes hedited

end Formulary.Markup

namespace Formulary

open Formulary.Markup

/-! ### Cutting an edited equation -/

/-- The cut at the first assignment does not depend on what stands behind it. -/
theorem splitAssignment_edited {comparing : Bool} {ts us vs : List Tree}
    (h : splitAssignment comparing ts = some (us, vs)) (edit : List Tree) :
    splitAssignment comparing (us ++ .text ['='] :: edit) = some (us, edit) := by
  fun_induction splitAssignment comparing ts generalizing us with
  | case1 => simp at h
  | case2 rest ih =>
      obtain ⟨⟨us', vs'⟩, hsplit, heq⟩ := Option.map_eq_some_iff.mp h
      obtain ⟨rfl, rfl⟩ := Prod.mk.inj heq
      simp [splitAssignment, ih hsplit]
  | case3 comparing rest hcomparing =>
      obtain ⟨rfl, rfl⟩ := Prod.mk.inj (Option.some.inj h)
      simp [splitAssignment, hcomparing]
  | case4 comparing t rest hne ih =>
      obtain ⟨⟨us', vs'⟩, hsplit, heq⟩ := Option.map_eq_some_iff.mp h
      obtain ⟨rfl, rfl⟩ := Prod.mk.inj heq
      rw [List.cons_append, splitAssignment, ih hsplit]
      · rfl
      · exact hne

/-- The cut at the first comma does not depend on what stands behind it. -/
theorem splitConstraint_edited {brackets delimiters : Int} {ts us vs : List Tree}
    (h : splitConstraint brackets delimiters ts = some (us, vs)) (edit : List Tree) :
    splitConstraint brackets delimiters (us ++ .text [','] :: edit) =
      some (us, edit) := by
  fun_induction splitConstraint brackets delimiters ts generalizing us with
  | case1 => simp at h
  | case2 brackets delimiters t rest hcomma =>
      obtain ⟨rfl, rfl⟩ := Prod.mk.inj (Option.some.inj h)
      simp [splitConstraint, Tree.chars, hcomma.2]
  | case3 brackets delimiters t rest hcomma ih =>
      obtain ⟨⟨us', vs'⟩, hsplit, heq⟩ := Option.map_eq_some_iff.mp h
      obtain ⟨rfl, rfl⟩ := Prod.mk.inj heq
      rw [List.cons_append, splitConstraint, if_neg hcomma, ih hsplit]
      rfl

/-! ### The offsets of the separators -/

/-- The offset of the equals sign that an equation is cut at. -/
def assignmentOffset? (table : CommandTable) (source : String) : Option Nat :=
  match parseWithin table source with
  | .ok d => (splitAssignment false d.trees).map fun r => (treesChars r.1).length
  | .error _ => none

/-- The offset of the comma behind that equals sign that an equation is cut at. -/
def commaOffset? (table : CommandTable) (source : String) : Option Nat :=
  match parseWithin table source with
  | .ok d =>
    (splitAssignment false d.trees).bind fun r =>
      (splitConstraint 0 0 r.2).map fun b =>
        (treesChars r.1).length + 1 + (treesChars b.1).length
  | .error _ => none

variable {table : CommandTable} {source : String}

theorem parseWithin_of_depth (h : (parse table source).depth ≤ nestingLimit) :
    parseWithin table source = .ok (parse table source) :=
  if_pos h

/-- Where an equation has an equals sign, its trees are cut there. -/
theorem exists_of_assignmentOffset? {k : Nat}
    (h : assignmentOffset? table source = some k) :
    (parse table source).depth ≤ nestingLimit ∧
      ∃ ds rest, splitAssignment false (parse table source).trees = some (ds, rest) ∧
        k = (treesChars ds).length := by
  unfold assignmentOffset? at h
  by_cases hdepth : (parse table source).depth ≤ nestingLimit
  · rw [parseWithin_of_depth hdepth] at h
    obtain ⟨⟨ds, rest⟩, hsplit, rfl⟩ := Option.map_eq_some_iff.mp h
    exact ⟨hdepth, ds, rest, hsplit, rfl⟩
  · have herror : parseWithin table source = .error .nesting := if_neg hdepth
    rw [herror] at h
    cases h

/-- The parts of an equation whose trees are cut at an equals sign. -/
theorem ofSource_of_splitAssignment (hdepth : (parse table source).depth ≤ nestingLimit)
    {ds rest : List Tree}
    (h : splitAssignment false (parse table source).trees = some (ds, rest)) :
    EquationParts.ofSource table source =
      EquationParts.ofBody (EquationParts.textOf ds) rest := by
  rw [EquationParts.ofSource, parseWithin_of_depth hdepth]
  simp only [EquationParts.ofTrees, h]

/-- The assignment stands behind the text of the declaration. -/
theorem assignmentOffset?_of_splitAssignment
    (hdepth : (parse table source).depth ≤ nestingLimit) {ds rest : List Tree}
    (h : splitAssignment false (parse table source).trees = some (ds, rest)) :
    assignmentOffset? table source = some (treesChars ds).length := by
  rw [assignmentOffset?, parseWithin_of_depth hdepth]
  simp only [h, Option.map_some]

/-- The comma stands behind the text of the declaration, the sign and the text of the
body. -/
theorem commaOffset?_of_splitAssignment
    (hdepth : (parse table source).depth ≤ nestingLimit) {ds rest : List Tree}
    (h : splitAssignment false (parse table source).trees = some (ds, rest)) :
    commaOffset? table source =
      (splitConstraint 0 0 rest).map fun b =>
        (treesChars ds).length + 1 + (treesChars b.1).length := by
  rw [commaOffset?, parseWithin_of_depth hdepth]
  simp only [h, Option.bind_some]

/-- The parts of a body that is cut at a comma. -/
theorem ofBody_of_splitConstraint {rest bs cs : List Tree}
    (h : splitConstraint 0 0 rest = some (bs, cs)) (declaration : String) :
    EquationParts.ofBody declaration rest =
      ⟨declaration, EquationParts.textOf bs, EquationParts.textOf cs⟩ := by
  simp only [EquationParts.ofBody, h]

/-- Cutting the body leaves the declaration as it is. -/
theorem declaration_ofBody (declaration : String) (ts : List Tree) :
    (EquationParts.ofBody declaration ts).declaration = declaration := by
  unfold EquationParts.ofBody
  split
  · rfl
  · rfl

theorem textOf_parse (table : CommandTable) (source : String) :
    EquationParts.textOf (parse table source).trees = source := by
  rw [EquationParts.textOf, parse_chars, String.ofList_toList]

/-- What stands in front of a separator is the text of the trees in front of it. -/
theorem take_of_parse {ts us : List Tree} {c : Char}
    (h : (parse table source).trees = ts ++ .text [c] :: us) :
    source.toList.take (treesChars ts).length = treesChars ts := by
  rw [← parse_chars table source, h, treesChars_append, List.take_left]

/-- The trees of a source whose text behind a separator was replaced. -/
theorem parse_trees_replaced {c : Char} (hc : IsSeparator c) {ts us : List Tree}
    (h : (parse table source).trees = ts ++ .text [c] :: us) (edit : String) :
    (parse table (String.ofList (source.toList.take (treesChars ts).length) ++
      String.ofList [c] ++
      edit)).trees = ts ++ .text [c] :: (parse table edit).trees := by
  have htext : String.ofList (source.toList.take (treesChars ts).length) ++
      String.ofList [c] ++ edit =
      String.ofList (treesChars ts ++ c :: edit.toList) := by
    apply String.toList_inj.mp
    simp [take_of_parse h]
  rw [htext]
  exact parse_trees_edited hc h edit

theorem isSeparator_equals : IsSeparator '=' := ⟨by decide, by decide⟩

theorem isSeparator_comma : IsSeparator ',' := ⟨by decide, by decide⟩

/-- What an edit behind the equals sign leaves as it is. -/
theorem declaration_of_edited {ds rest : List Tree}
    (hsplit : splitAssignment false (parse table source).trees = some (ds, rest))
    {k : Nat} (hk : k = (treesChars ds).length) (edit : String)
    (hdepth : (parse table
      (String.ofList (source.toList.take k) ++ "=" ++ edit)).depth ≤ nestingLimit) :
    assignmentOffset? table (String.ofList (source.toList.take k) ++ "=" ++ edit) =
      some k ∧
      (EquationParts.ofSource table
        (String.ofList (source.toList.take k) ++ "=" ++ edit)).declaration =
        String.ofList (source.toList.take k) := by
  subst hk
  have htrees := eq_append_of_splitAssignment hsplit
  have hedited := parse_trees_replaced isSeparator_equals htrees edit
  have hassign := splitAssignment_edited hsplit (parse table edit).trees
  rw [← hedited] at hassign
  refine ⟨assignmentOffset?_of_splitAssignment hdepth hassign, ?_⟩
  rw [take_of_parse htrees] at hdepth hassign ⊢
  rw [ofSource_of_splitAssignment hdepth hassign, declaration_ofBody]
  rfl

/-- The trees of an equation that is cut at an equals sign and a comma. -/
theorem trees_of_cuts {ds rest bs cs : List Tree}
    (hsplit : splitAssignment false (parse table source).trees = some (ds, rest))
    (hcomma : splitConstraint 0 0 rest = some (bs, cs)) :
    (parse table source).trees = (ds ++ .text ['='] :: bs) ++ .text [','] :: cs := by
  have hrest : (parse table source).trees = (ds ++ [.text ['=']]) ++ rest := by
    simpa using eq_append_of_splitAssignment hsplit
  rw [hrest, exists_append_of_splitComma hrest hcomma]
  simp

/-- What an edit behind the comma leaves as it is. -/
theorem constraint_of_edited {ds rest bs cs : List Tree}
    (hlimit : (parse table source).depth ≤ nestingLimit)
    (hsplit : splitAssignment false (parse table source).trees = some (ds, rest))
    (hcomma : splitConstraint 0 0 rest = some (bs, cs)) {m : Nat}
    (hm : m = (treesChars ds).length + 1 + (treesChars bs).length) (edit : String)
    (hdepth : (parse table
      (String.ofList (source.toList.take m) ++ "," ++ edit)).depth ≤ nestingLimit) :
    commaOffset? table (String.ofList (source.toList.take m) ++ "," ++ edit) = some m ∧
      EquationParts.ofSource table
        (String.ofList (source.toList.take m) ++ "," ++ edit) =
        { EquationParts.ofSource table source with constraint := edit } := by
  have hlength : m = (treesChars (ds ++ .text ['='] :: bs)).length := by
    rw [hm]
    simp [treesChars, Tree.chars]
    omega
  have hedited := parse_trees_replaced isSeparator_comma
    (trees_of_cuts hsplit hcomma) edit
  rw [← hlength, List.append_assoc, List.cons_append] at hedited
  have hassign := splitAssignment_edited hsplit
    (bs ++ .text [','] :: (parse table edit).trees)
  rw [← hedited] at hassign
  have hconstraint := splitConstraint_edited hcomma (parse table edit).trees
  constructor
  · rw [commaOffset?_of_splitAssignment hdepth hassign, hconstraint,
      Option.map_some, hm]
  · rw [ofSource_of_splitAssignment hdepth hassign,
      ofSource_of_splitAssignment hlimit hsplit, ofBody_of_splitConstraint hconstraint,
      ofBody_of_splitConstraint hcomma, textOf_parse]

/-- **Editing the end of an equation keeps what stands in front of it.**  Behind the
equals sign any text may come, and the declaration stays; behind the comma any text
may come, and it is the new constraint. -/
theorem parts_of_edited (table : CommandTable) (source : String) (k : Nat)
    (hk : assignmentOffset? table source = some k) :
    (∀ edit : String,
      (parse table (String.ofList (source.toList.take k) ++ "=" ++ edit)).depth ≤
        nestingLimit →
        assignmentOffset? table (String.ofList (source.toList.take k) ++ "=" ++ edit) =
          some k ∧
          (EquationParts.ofSource table
            (String.ofList (source.toList.take k) ++ "=" ++ edit)).declaration =
              String.ofList (source.toList.take k)) ∧
      ∀ m, commaOffset? table source = some m → ∀ edit : String,
        (parse table (String.ofList (source.toList.take m) ++ "," ++ edit)).depth ≤
          nestingLimit →
          commaOffset? table (String.ofList (source.toList.take m) ++ "," ++ edit) =
            some m ∧
            EquationParts.ofSource table
              (String.ofList (source.toList.take m) ++ "," ++ edit) =
              { EquationParts.ofSource table source with constraint := edit } := by
  obtain ⟨hlimit, ds, rest, hsplit, hlength⟩ := exists_of_assignmentOffset? hk
  constructor
  · exact declaration_of_edited hsplit hlength
  · intro m hm
    rw [commaOffset?_of_splitAssignment hlimit hsplit] at hm
    obtain ⟨⟨bs, cs⟩, hcomma, hoffset⟩ := Option.map_eq_some_iff.mp hm
    exact constraint_of_edited hlimit hsplit hcomma hoffset.symm

/-- The comma in the delimiters does not separate, and what is put behind the one
that does opens a group and a comment. -/
theorem parts_of_edited_delimited :
    (assignmentOffset? .standard "f(x)=\\left(a,b\\right),c" = some 4 ∧
      commaOffset? .standard "f(x)=\\left(a,b\\right),c" = some 21 ∧
        (parse .standard "f(x)=\\left(a,b\\right),\x7b\\left(=%").depth ≤
          nestingLimit) ∧
      EquationParts.ofSource .standard "f(x)=\\left(a,b\\right),\x7b\\left(=%" =
        ⟨"f(x)", "\\left(a,b\\right)", "\x7b\\left(=%"⟩ := by
  have hk : assignmentOffset? .standard "f(x)=\\left(a,b\\right),c" = some 4 := by
    decide +kernel
  have hm : commaOffset? .standard "f(x)=\\left(a,b\\right),c" = some 21 := by
    decide +kernel
  have hdepth : (parse .standard "f(x)=\\left(a,b\\right),\x7b\\left(=%").depth ≤
      nestingLimit := by
    decide +kernel
  have hparts : EquationParts.ofSource .standard "f(x)=\\left(a,b\\right),c" =
      ⟨"f(x)", "\\left(a,b\\right)", "c"⟩ := by decide +kernel
  have hedited := ((parts_of_edited .standard _ 4 hk).2 21 hm "\x7b\\left(=%" hdepth).2
  rw [hparts] at hedited
  exact ⟨⟨hk, hm, hdepth⟩, hedited⟩

end Formulary
