import Formulary.Proofs.Spellings

/-!
# The trees of a name

A name is markup, and its spelling says how it is read: the base is one tree, and
each script behind it is another, with the content of the script as its only
argument.  This holds of every spelling whose parts are balanced, whatever they
contain.  So a name has at most one such spelling.

* `Part.tree`, `Base.tree` and `Spelling.row` are the trees that one expects.
* `Spelling.parse_text` says that they are the ones that are read.
* `Spelling.eq_of_text` says that the spelling can be told from the name.
-/

namespace Formulary

/-! ### Legible tables -/

/-- A table in which letters and decorators are words, and decorators leave their
argument in math. -/
structure CommandTable.Legible (t : CommandTable) : Prop where
  orderly : t.Orderly
  regular : t.Regular
  words : t.startsName "" = false
  math : ∀ name, t.isDecorator name = true → t.isTextual name = false

/-- What starts a name is not empty. -/
theorem CommandTable.Legible.toList_ne_nil {t : CommandTable}
    (h : t.Legible) {name : String} (hname : t.startsName name = true) :
    name.toList ≠ [] := by
  intro hnil
  obtain rfl : name = "" := by simpa using hnil
  rw [h.words] at hname
  cases hname

/-- What starts a name is a word. -/
theorem CommandTable.Legible.proper_word {t : CommandTable}
    (h : t.Legible) {name : String} (hname : t.startsName name = true) :
    Markup.Lexeme.Proper ⟨.controlWord, '\\' :: name.toList⟩ :=
  ⟨name.toList, rfl, h.toList_ne_nil hname, h.orderly.names name hname⟩

namespace Variable

open Formulary.Markup

variable {table : CommandTable}

/-- A word is tidy: it is neither a lone backslash nor an escaped script mark. -/
theorem isTidy_of_controlWord {l : Lexeme} (hl : l.Proper) (h : l.kind = .controlWord) :
    l.isTidy = true := by
  obtain ⟨kind, text⟩ := l
  obtain rfl : kind = .controlWord := h
  obtain ⟨cs, rfl, hne, hcs⟩ := hl
  have hword : ∀ c, c.isAlpha = false → cs ≠ [c] := by
    rintro c hc rfl
    simp [hc] at hcs
  simp [Lexeme.isTidy, hne, hword '_' (by decide), hword '^' (by decide)]

/-! ### Trees that stand alone -/

/-- Trees that are read in the same way whatever follows them, unless it starts with
a letter. -/
structure Standalone (table : CommandTable) (us : List Tree) : Prop where
  reads : ∀ rest, treesRead table .top .math rest us
  cut : ∀ rest, IsCut rest → (∀ m ∈ rest.head?, m.kind ≠ .letter) →
    IsCut (treesLexemes us ++ rest)

namespace Standalone

/-- Trees that stand alone are the ones that are read in their text. -/
theorem parse_eq {us : List Tree} (h : Standalone table us) :
    parse table (String.ofList (treesChars us)) = ⟨treesLexemes us, us⟩ := by
  have hcut := h.cut [] isCut_nil (by simp)
  rw [List.append_nil] at hcut
  exact parse_treesChars (h.reads []) hcut

/-- Nothing stands alone. -/
theorem nil : Standalone table [] where
  reads rest := by simp only [treesRead]
  cut rest hrest _ := hrest

/-- Trees stand alone in a row if the first one is not followed by a letter. -/
theorem cons {u : Tree} {us : List Tree} (hu : Standalone table [u])
    (hus : Standalone table us)
    (hhead : ∀ m ∈ (treesLexemes us).head?, m.kind ≠ .letter) :
    Standalone table (u :: us) where
  reads rest := by
    rw [← List.singleton_append]
    exact treesRead_append.mpr ⟨hu.reads _, hus.reads rest⟩
  cut rest hrest hkeeps := by
    have hcut := hu.cut _ (hus.cut rest hrest hkeeps) fun m hm => by
      cases hus : treesLexemes us with
      | nil => exact hkeeps m (by simpa [hus] using hm)
      | cons l ls => exact hhead m (by simpa [hus] using hm)
    simpa using hcut

/-- A letter stands alone. -/
theorem letter {c : Char} (hc : c.isAlpha = true) : Standalone table [.text [c]] where
  reads rest := by
    simp only [treesRead, Tree.Reads, and_true]
    have hkind := startKind_of_isAlpha hc
    exact ⟨by simp, .inl
      ⟨c, rfl, by simp [hkind, LexemeKind.isText], by simp [hkind, Mode.joins]⟩⟩
  cut rest hrest _ := by
    simpa using hrest.alphanum (by simp [Char.isAlphanum, hc])

/-- A command that names a letter stands alone. -/
theorem word (hlegible : table.Legible) {name : String}
    (hletter : table.isLetter name = true) :
    Standalone table [.plain ⟨.controlWord, '\\' :: name.toList⟩] where
  reads rest := by
    have hslots : argumentSlots table ⟨.controlWord, '\\' :: name.toList⟩ = [] := by
      simp [argumentSlots, Lexeme.name, hlegible.orderly.letters name hletter]
    simp only [treesRead, Tree.plain, Tree.Reads, and_true, hslots, argsRead]
    exact .inr ⟨.inl trivial, fun _ _ => rfl, rfl⟩
  cut rest hrest hkeeps := by
    have hname : table.startsName name = true := by
      simp [CommandTable.startsName, hletter]
    have hproper := hlegible.proper_word hname
    refine hrest.cons hproper (isTidy_of_controlWord hproper rfl) fun m hm => ?_
    exact ⟨by simp, fun _ => hkeeps m hm⟩

end Standalone

/-! ### The tree of a part -/

/-- A single character is read as text. -/
theorem parse_character {c : Char} (hc : (Lexeme.startKind c).isText = true)
    (hback : c ≠ '\\') :
    (parse table (String.ofList [c])).trees = [.text [c]] := by
  have hreads : treesRead table .top .math [] [.text [c]] := by
    simp only [treesRead, Tree.Reads, and_true]
    refine ⟨by simp, ?_⟩
    cases hjoins : Mode.joins .math (Lexeme.startKind c) with
    | false => exact .inl ⟨c, rfl, hc, hjoins⟩
    | true => exact .inr ⟨by simp, by simpa using hjoins, by simp⟩
  have hcut : IsCut (treesLexemes [.text [c]]) := by
    have hchars : ∀ d ∈ [c], (Lexeme.startKind d).isText = true ∧ d ≠ '\\' := by
      simpa using ⟨hc, hback⟩
    simpa using isCut_nil.chars hchars
  simpa [treesChars, Tree.chars]
    using congrArg Document.trees (parse_treesChars hreads hcut)

/-- Whether a text is a single digit. -/
def isSingleDigit : List Char → Bool
  | [c] => Text.isDigit c
  | _ => false

/-- The texts that stay bare. -/
theorem isSingleDigit_iff {w : List Char} :
    isSingleDigit w = true ↔ ∃ c, w = [c] ∧ Text.isDigit c = true := by
  unfold isSingleDigit
  split
  · simp
  · next h => simpa using fun c hc => absurd hc (h c)

/-- How the content of a script is written. -/
theorem formatModifier_eq (w : List Char) :
    formatModifier w = if isSingleDigit w then w else braced w := by
  unfold formatModifier isSingleDigit
  split <;> simp_all

namespace Part

/-- A part that may stand in a name. -/
def Fits (table : CommandTable) (p : Part) : Prop :=
  p.head = "_" ∨ p.head = "^" ∨ table.isDecorator p.head = true

/-- The script mark or the decorator in front of the content. -/
def mark (p : Part) : Lexeme :=
  if p.head = "_" then Lexeme.start '_'
  else if p.head = "^" then Lexeme.start '^'
  else ⟨.controlWord, '\\' :: p.head.toList⟩

/-- What encloses the content. -/
def enclosure (p : Part) : Enclosure :=
  if isScriptName p.head && isSingleDigit p.content then .bare else .braces true

/-- The trees of the content. -/
def body (table : CommandTable) (p : Part) : List Tree :=
  (parse table (String.ofList p.content)).trees

/-- The tree of a part. -/
def tree (table : CommandTable) (p : Part) : Tree :=
  .command p.mark [.mk [] p.enclosure (p.body table)] false

variable {p : Part}

/-- A part is braced, unless its content is a single digit. -/
theorem enclosure_cases (p : Part) :
    p.enclosure = .braces true ∨
      p.enclosure = .bare ∧ ∃ c, p.content = [c] ∧ Text.isDigit c = true := by
  unfold enclosure
  split_ifs with h
  · exact .inr ⟨rfl, isSingleDigit_iff.mp (Bool.and_eq_true_iff.mp h).2⟩
  · exact .inl rfl

/-- A digit is read as text. -/
theorem body_of_digit {c : Char} (hc : p.content = [c])
    (hdigit : Text.isDigit c = true) :
    p.body table = [.text [c]] := by
  obtain ⟨htext, hback⟩ := isText_of_isDigit hdigit
  rw [body, hc, parse_character htext hback]

/-- A part has a script mark or the word of a decorator in front. -/
theorem mark_cases (hlegible : table.Legible) (h : p.Fits table) :
    isScriptName p.head = true ∧
      (p.mark = Lexeme.start '_' ∨ p.mark = Lexeme.start '^') ∨
      isScriptName p.head = false ∧ table.isDecorator p.head = true ∧
        p.mark = ⟨.controlWord, '\\' :: p.head.toList⟩ ∧ p.mark.Proper := by
  rcases h with h | h | h
  · exact .inl ⟨by simp [isScriptName, h], .inl (by simp [mark, h])⟩
  · exact .inl ⟨by simp [isScriptName, h], .inr (by simp [mark, h])⟩
  · have hscript := isScriptName_eq_false_of_isDecorator hlegible.orderly h
    have hmark : p.mark = ⟨.controlWord, '\\' :: p.head.toList⟩ := by
      simp only [isScriptName, Bool.or_eq_false_iff, decide_eq_false_iff_not] at hscript
      rw [mark, if_neg hscript.1, if_neg hscript.2]
    refine .inr ⟨hscript, h, hmark, ?_⟩
    rw [hmark]
    exact hlegible.proper_word (by simp [CommandTable.startsName, h])

/-- What stands in front of a part is a proper lexeme. -/
theorem mark_proper (hlegible : table.Legible) (h : p.Fits table) : p.mark.Proper := by
  rcases mark_cases hlegible h with ⟨-, hmark | hmark⟩ | ⟨-, -, -, hproper⟩
  · exact hmark ▸ Lexeme.start_proper _
  · exact hmark ▸ Lexeme.start_proper _
  · exact hproper

/-- A part is named by what stands in front of it. -/
theorem mark_name (hlegible : table.Legible) (h : p.Fits table) :
    p.mark.name = p.head := by
  rcases h with h | h | h
  · rw [mark, if_pos h, h]
    rfl
  · rw [mark, if_neg (by simp [h]), if_pos h, h]
    rfl
  · rcases mark_cases hlegible (.inr (.inr h)) with ⟨hscript, -⟩ | ⟨-, -, hmark, -⟩
    · rw [isScriptName_eq_false_of_isDecorator hlegible.orderly h] at hscript
      cases hscript
    · simp [hmark, Lexeme.name]

/-- The marks around the content of a part are not kept. -/
theorem dropsMarks_head (h : p.Fits table) : dropsMarks table p.head = true := by
  rcases h with h | h | h <;> simp [dropsMarks, isScriptName, h]

/-- A part is read as such whatever follows it. -/
theorem treesRead_tree (hlegible : table.Legible) (h : p.Fits table)
    (hw : Balanced p.content) (rest : List Lexeme) :
    treesRead table .top .math rest [p.tree table] := by
  have hslots : argumentSlots table p.mark = [.mandatory] :=
    argumentSlots_of_dropsMarks hlegible.regular (mark_proper hlegible h)
      (by rw [mark_name hlegible h]; exact dropsMarks_head h)
  have hmode : argumentMode table .math p.mark = .math := by
    rcases mark_cases hlegible h with ⟨-, hmark | hmark⟩ | ⟨-, hdecorator, hmark, -⟩
    · rw [hmark]; rfl
    · rw [hmark]; rfl
    · simp [argumentMode, hmark, Lexeme.name, hlegible.math p.head hdecorator]
  have hkind : p.mark.kind = .controlWord ∨ p.mark.kind = .subscript ∨
      p.mark.kind = .superscript := by
    rcases mark_cases hlegible h with ⟨-, hmark | hmark⟩ | ⟨-, -, hmark, -⟩
    · exact .inr (.inl (by rw [hmark]; rfl))
    · exact .inr (.inr (by rw [hmark]; rfl))
    · exact .inl (by rw [hmark])
  have hargs : argsRead table .math [.mandatory] rest false
      [.mk [] p.enclosure (p.body table)] := by
    rcases enclosure_cases p with henclosure | ⟨henclosure, c, hc, hdigit⟩
    · rw [henclosure]
      exact argsRead_braced hw.bracesMatch.reads rest
    · rw [henclosure, body_of_digit hc hdigit]
      exact argsRead_character (isText_of_isDigit hdigit).1 .math rest
  simp only [treesRead, tree, Tree.Reads, hslots, hmode]
  exact ⟨.inr ⟨hkind, hargs⟩, trivial⟩

/-- A part is cut off from what follows, be it a letter or not. -/
theorem isCut_tree (hlegible : table.Legible) (h : p.Fits table)
    (hw : Balanced p.content) {rest : List Lexeme} (hrest : IsCut rest) :
    IsCut ((p.tree table).lexemes ++ rest) := by
  have hinside : ∃ l ls, argsLexemes [.mk [] p.enclosure (p.body table)] ++ rest =
      l :: ls ∧
      IsCut (l :: ls) ∧ l.kind ≠ .letter := by
    rcases enclosure_cases p with henclosure | ⟨henclosure, c, hc, hdigit⟩
    · refine ⟨Lexeme.start '{',
        _, by simp [henclosure, Enclosure.opening]; rfl, ?_, by decide⟩
      have hclose : IsCut (Lexeme.start '}' :: rest) := hrest.start rfl (by decide)
      have hopen := (hw.endsBeforeMark.append (by decide) (by decide) hclose).start
        (c := '{') rfl (by decide)
      simpa [henclosure, Enclosure.closing, body, parse_lexemes] using hopen
    · obtain ⟨htext, hback⟩ := isText_of_isDigit hdigit
      refine ⟨Lexeme.start c, rest, ?_, ?_, startKind_ne_letter_of_isDigit hdigit⟩
      · simp [henclosure, Enclosure.opening, Enclosure.closing, body_of_digit hc hdigit]
      · have hchars : ∀ d ∈ [c], (Lexeme.startKind d).isText = true ∧ d ≠ '\\' := by
          simpa using ⟨htext, hback⟩
        exact hrest.chars hchars
  obtain ⟨l, ls, heq, hcut, hletter⟩ := hinside
  rw [tree, Tree.lexemes, List.cons_append, heq]
  refine hcut.cons (mark_proper hlegible h) ?_ ?_
  · rcases mark_cases hlegible h with ⟨-, hmark | hmark⟩ | ⟨-, -, hmark, hproper⟩
    · rw [hmark]; decide
    · rw [hmark]; decide
    · exact isTidy_of_controlWord hproper (by rw [hmark])
  · intro m hm
    obtain rfl : l = m := by simpa using hm
    refine ⟨fun hblank => ?_, fun _ => hletter⟩
    rcases mark_cases hlegible h with ⟨-, hmark | hmark⟩ | ⟨-, -, hmark, -⟩ <;>
      rw [hmark] at hblank <;> cases hblank

theorem standalone (hlegible : table.Legible) (h : p.Fits table)
    (hw : Balanced p.content) :
    Standalone table [p.tree table] where
  reads := treesRead_tree hlegible h hw
  cut rest hrest _ := by simpa [tree] using isCut_tree hlegible h hw hrest

/-- The text of a part by its mark and its enclosure. -/
theorem written_eq (hlegible : table.Legible) (h : p.Fits table) :
    p.written = p.mark.text ++
      (p.enclosure.opening ++ (p.content ++ p.enclosure.closing)) := by
  rw [written, enclosure, formatModifier_eq]
  rcases h with h | h | h
  · cases isSingleDigit p.content <;>
      simp [h, isScriptName, mark, braced, Enclosure.opening, Enclosure.closing]
  · cases isSingleDigit p.content <;>
      simp [h, isScriptName, mark, braced, Enclosure.opening, Enclosure.closing]
  · rcases mark_cases hlegible (.inr (.inr h))
      with ⟨hscript, -⟩ | ⟨hscript, -, hmark, -⟩
    · rw [isScriptName_eq_false_of_isDecorator hlegible.orderly h] at hscript
      cases hscript
    · simp [hscript, hmark, braced, Enclosure.opening, Enclosure.closing]

theorem chars_tree (hlegible : table.Legible) (h : p.Fits table) :
    (p.tree table).chars = p.written := by
  have hbody : treesChars (p.body table) = p.content := by
    rw [body, parse_chars, String.toList_ofList]
  simp [tree, Tree.chars, argsChars, hbody, written_eq hlegible h]

/-- A part is one level deeper than its content. -/
theorem depth_tree (p : Part) :
    (p.tree table).depth = (parse table (String.ofList p.content)).depth + 1 := by
  simp [tree, Tree.depth, argsDepth, body, Document.depth]

/-! ### Parts in a row -/

/-- A part does not start with a letter. -/
theorem mark_kind_ne_letter (hlegible : table.Legible) (h : p.Fits table) :
    p.mark.kind ≠ .letter := by
  rcases mark_cases hlegible h with ⟨-, hmark | hmark⟩ | ⟨-, -, hmark, -⟩ <;> rw [hmark]
  · decide
  · decide
  · simp

/-- Parts in a row stand alone. -/
theorem standalone_trees (hlegible : table.Legible) {ps : List Part}
    (hps : ∀ p ∈ ps, p.Fits table ∧ Balanced p.content) :
    Standalone table (ps.map (tree table)) ∧
      ∀ m ∈ (treesLexemes (ps.map (tree table))).head?, m.kind ≠ .letter := by
  induction ps with
  | nil => exact ⟨Standalone.nil, by simp⟩
  | cons p ps ih =>
      obtain ⟨hrest, hhead⟩ := ih fun q hq => hps q (by simp [hq])
      obtain ⟨hfits, hw⟩ := hps p (by simp)
      refine ⟨(standalone hlegible hfits hw).cons hrest hhead, fun m hm => ?_⟩
      obtain rfl : p.mark = m := by simpa [tree] using hm
      exact mark_kind_ne_letter hlegible hfits

/-- The trees of parts in a row are those of their texts. -/
theorem treesChars_trees (hlegible : table.Legible) {ps : List Part}
    (hps : ∀ p ∈ ps, p.Fits table) :
    treesChars (ps.map (tree table)) = ps.flatMap written := by
  induction ps with
  | nil => rfl
  | cons p ps ih =>
      rw [List.map_cons, treesChars, chars_tree hlegible (hps p (by simp)),
        ih fun q hq => hps q (by simp [hq]), List.flatMap_cons]

/-- The part that a tree shows. -/
def ofTree : Tree → Part
  | .command head [.mk _ _ body] _ => ⟨head.name, treesChars body⟩
  | _ => ⟨"", []⟩

/-- A part can be told from its tree. -/
theorem ofTree_tree (hlegible : table.Legible) (h : p.Fits table) :
    ofTree (p.tree table) = p := by
  rw [tree, ofTree, mark_name hlegible h, body, parse_chars, String.toList_ofList]

/-- Parts in a row can be told from their trees. -/
theorem ofTree_trees (hlegible : table.Legible) {ps : List Part}
    (hps : ∀ p ∈ ps, p.Fits table) :
    (ps.map (tree table)).map ofTree = ps := by
  rw [List.map_map]
  exact (List.map_congr_left fun p hp => ofTree_tree hlegible (hps p hp)).trans
    (List.map_id ps)

end Part

/-! ### The tree of a base -/

/-- The tree of a base. -/
def Base.tree (table : CommandTable) : Base → Tree
  | .letter c => .text [c]
  | .word name => .plain ⟨.controlWord, '\\' :: name.toList⟩
  | .decorated part => part.tree table

namespace Base

variable {b : Base}

/-- The part of a base is a decorator with its content. -/
theorem fits_of_mem_parts (h : b.starts table = true) {p : Part} (hp : p ∈ b.parts) :
    p.Fits table := by
  cases b with
  | letter c => simp [parts] at hp
  | word name => simp [parts] at hp
  | decorated part =>
      obtain rfl : p = part := by simpa [parts] using hp
      exact .inr (.inr (Bool.and_eq_true_iff.mp h).1)

/-- A base stands alone if its part is balanced. -/
theorem standalone (hlegible : table.Legible) (h : b.starts table = true)
    (hw : ∀ p ∈ b.parts, Balanced p.content) : Standalone table [b.tree table] := by
  cases b with
  | letter c => exact Standalone.letter h
  | word name => exact Standalone.word hlegible h
  | decorated part =>
      exact Part.standalone hlegible
        (fits_of_mem_parts h (List.mem_singleton_self part))
        (hw part (List.mem_singleton_self part))

/-- The tree of a base is one of its text. -/
theorem chars_tree (hlegible : table.Legible) (h : b.starts table = true) :
    (b.tree table).chars = b.text := by
  cases b with
  | letter c => rfl
  | word name => simp [tree, Tree.plain, Tree.chars, argsChars, text]
  | decorated part =>
      exact Part.chars_tree hlegible
        (fits_of_mem_parts h (List.mem_singleton_self part))

/-- A base can be told from its tree. -/
theorem tree_injective (hlegible : table.Legible) {b b' : Base}
    (h : b.starts table = true) (h' : b'.starts table = true)
    (htree : b.tree table = b'.tree table) : b = b' := by
  cases b with
  | letter c => cases b' <;> simp_all [tree, Tree.plain, Part.tree]
  | word name =>
      cases b' <;> simp_all [tree, Tree.plain, Part.tree, ← String.toList_inj]
  | decorated part =>
      cases b' with
      | letter c => simp [tree, Part.tree] at htree
      | word name => simp [tree, Part.tree, Tree.plain] at htree
      | decorated part' =>
          have hpart := congrArg Part.ofTree htree
          simp only [tree] at hpart
          rw [Part.ofTree_tree hlegible
            (fits_of_mem_parts h (List.mem_singleton_self part)),
            Part.ofTree_tree hlegible
              (fits_of_mem_parts h' (List.mem_singleton_self part'))] at hpart
          rw [hpart]

end Base

/-! ### The trees of a spelling -/

namespace Spelling

/-- The trees of a spelling. -/
def row (table : CommandTable) (sp : Spelling) : List Tree :=
  sp.base.tree table :: sp.scripts.map (Part.tree table)

/-- A spelling that can be read: its base is one, and the contents of its parts are
balanced. -/
structure Sealed (table : CommandTable) (sp : Spelling) : Prop where
  base : sp.base.starts table = true
  parts : ∀ p ∈ sp.parts, Balanced p.content

variable {sp : Spelling}

/-- The scripts of a spelling are its subscript and its superscript. -/
theorem mem_scripts {p : Part} :
    p ∈ sp.scripts ↔ (∃ w, sp.subscript? = some w ∧ Part.mk "_" w = p) ∨
      ∃ w, sp.superscript? = some w ∧ Part.mk "^" w = p := by
  simp only [scripts, List.mem_append, Option.mem_toList, Option.map_eq_some_iff]

/-- A script may stand in a name. -/
theorem fits_of_mem_scripts {p : Part} (h : p ∈ sp.scripts) : p.Fits table := by
  rcases mem_scripts.mp h with ⟨w, -, rfl⟩ | ⟨w, -, rfl⟩
  · exact .inl rfl
  · exact .inr (.inl rfl)

/-- All parts of a spelling may stand in a name. -/
theorem fits_of_mem_parts (hbase : sp.base.starts table = true) {p : Part}
    (h : p ∈ sp.parts) :
    p.Fits table := by
  rcases List.mem_append.mp h with h | h
  · exact Base.fits_of_mem_parts hbase h
  · exact fits_of_mem_scripts h

/-- The trees of a spelling stand alone if its parts are balanced. -/
theorem standalone_row (hlegible : table.Legible) (h : sp.Sealed table) :
    Standalone table (sp.row table) := by
  have hfits : ∀ p ∈ sp.scripts, p.Fits table ∧ Balanced p.content := fun p hp =>
    ⟨fits_of_mem_scripts hp, h.parts p (List.mem_append_right _ hp)⟩
  obtain ⟨hscripts, hhead⟩ := Part.standalone_trees hlegible hfits
  exact (Base.standalone hlegible h.base fun p hp =>
    h.parts p (List.mem_append_left _ hp)).cons
    hscripts hhead

/-- The trees of a spelling are those of the name. -/
theorem treesChars_row (hlegible : table.Legible)
    (hbase : sp.base.starts table = true) :
    treesChars (sp.row table) = sp.text := by
  rw [row, treesChars, Base.chars_tree hlegible hbase,
    Part.treesChars_trees hlegible fun p => fits_of_mem_scripts, text]

/-- **A name is read by its spelling**: as a base and the scripts behind it. -/
theorem parse_text (hlegible : table.Legible) (h : sp.Sealed table) :
    (parse table (String.ofList sp.text)).trees = sp.row table := by
  rw [← treesChars_row hlegible h.base, (standalone_row hlegible h).parse_eq]

/-- A spelling can be told from its trees. -/
theorem row_injective (hlegible : table.Legible) {sp sp' : Spelling}
    (hbase : sp.base.starts table = true) (hbase' : sp'.base.starts table = true)
    (h : sp.row table = sp'.row table) : sp = sp' := by
  obtain ⟨hfirst, hrest⟩ := List.cons.inj h
  have hscripts : sp.scripts = sp'.scripts := by
    have hparts := congrArg (List.map Part.ofTree) hrest
    rwa [Part.ofTree_trees hlegible fun p => fits_of_mem_scripts,
      Part.ofTree_trees hlegible fun p => fits_of_mem_scripts] at hparts
  have hbases := Base.tree_injective hlegible hbase hbase' hfirst
  obtain ⟨base, sub, sup⟩ := sp
  obtain ⟨base', sub', sup'⟩ := sp'
  obtain rfl : base = base' := hbases
  cases sub <;> cases sup <;> cases sub' <;> cases sup' <;> simp_all [scripts]

/-- **A name has one spelling** whose parts are balanced. -/
theorem eq_of_text (hlegible : table.Legible) {sp sp' : Spelling} (h : sp.Sealed table)
    (h' : sp'.Sealed table) (htext : sp.text = sp'.text) : sp = sp' := by
  have hrow := parse_text hlegible h
  rw [htext, parse_text hlegible h'] at hrow
  exact (row_injective hlegible h'.base h.base hrow).symm

/-- A row is as deep as its parts. -/
theorem depth_row_le_iff {d : Nat} :
    treesDepth (sp.row table) ≤ d ↔ ∀ p ∈ sp.parts, (p.tree table).depth ≤ d := by
  have hscripts : ∀ ps : List Part,
      treesDepth (ps.map (Part.tree table)) ≤ d ↔
        ∀ p ∈ ps, (p.tree table).depth ≤ d := by
    intro ps
    induction ps with
    | nil => simp [treesDepth]
    | cons p ps ih => simp [treesDepth, ih]
  have hbase : (sp.base.tree table).depth ≤ d ↔
      ∀ p ∈ sp.base.parts, (p.tree table).depth ≤ d := by
    cases sp.base <;> simp [Base.tree, Base.parts, Tree.plain, Tree.depth, argsDepth]
  rw [row, treesDepth, max_le_iff, hbase, hscripts, parts, List.forall_mem_append]

end Spelling

end Variable

end Formulary
