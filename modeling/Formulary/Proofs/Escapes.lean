import Formulary.Proofs.TidyTrees

/-!
# Escaped characters in written markup

A control symbol is a backslash and a character that is no letter.  When the nodes of
a source are written anew, texts come to stand side by side that were apart in the
source, so it takes an argument that no control symbol arises and none is lost at
such a place.  They all come back in order except for escaped script marks, which are
written without their backslash.

* `escapesFrom` finds the control symbols of a text one character at a time, and
  `lexemesEscapes_lex` shows that it finds the lexemes of that kind.
* `HasEscapes` says which control symbols a text adds in front of any other text.  It
  is shown piece by piece for what is written, and pieces can be joined
  (`HasEscapes.append`).
-/

namespace Formulary.Markup

open Formulary.Variable

/-! ### Control symbols among lexemes -/

/-- The texts of the control symbols among lexemes. -/
def lexemesEscapes (ls : List Lexeme) : List (List Char) :=
  (ls.filter (·.kind = .controlSymbol)).map Lexeme.text

/-- The texts of the control symbols of a source. -/
def controlSymbols (source : String) : List (List Char) :=
  lexemesEscapes ((tokenize source).map Token.lexeme)

/-- Whether a text is a script mark with a backslash in front. -/
def isScriptEscape (text : List Char) : Bool :=
  text = ['\\', '_'] || text = ['\\', '^']

/-- The control symbols among lexemes that are no escaped script marks. -/
def keptEscapes (ls : List Lexeme) : List (List Char) :=
  (lexemesEscapes ls).filter (!isScriptEscape ·)

@[simp] theorem lexemesEscapes_append (ls ms : List Lexeme) :
    lexemesEscapes (ls ++ ms) = lexemesEscapes ls ++ lexemesEscapes ms := by
  simp [lexemesEscapes]

theorem lexemesEscapes_cons (l : Lexeme) (ls : List Lexeme) :
    lexemesEscapes (l :: ls) = lexemesEscapes [l] ++ lexemesEscapes ls :=
  lexemesEscapes_append [l] ls

theorem lexemesEscapes_eq_nil {ls : List Lexeme}
    (h : ∀ l ∈ ls, l.kind ≠ .controlSymbol) :
    lexemesEscapes ls = [] := by
  have hnone : ls.filter (·.kind = .controlSymbol) = [] := by simpa using h
  rw [lexemesEscapes, hnone, List.map_nil]

@[simp] theorem keptEscapes_append (ls ms : List Lexeme) :
    keptEscapes (ls ++ ms) = keptEscapes ls ++ keptEscapes ms := by
  simp [keptEscapes]

theorem keptEscapes_cons (l : Lexeme) (ls : List Lexeme) :
    keptEscapes (l :: ls) = keptEscapes [l] ++ keptEscapes ls :=
  keptEscapes_append [l] ls

theorem keptEscapes_eq_nil {ls : List Lexeme} (h : ∀ l ∈ ls, l.kind ≠ .controlSymbol) :
    keptEscapes ls = [] := by
  rw [keptEscapes, lexemesEscapes_eq_nil h, List.filter_nil]

theorem startKind_ne_controlSymbol (c : Char) : Lexeme.startKind c ≠ .controlSymbol :=
  Lexeme.opens_of_startKind

theorem lexemesEscapes_start (c : Char) : lexemesEscapes [Lexeme.start c] = [] :=
  lexemesEscapes_eq_nil (by simpa [Lexeme.start] using startKind_ne_controlSymbol c)

theorem keptEscapes_start (c : Char) : keptEscapes [Lexeme.start c] = [] := by
  rw [keptEscapes, lexemesEscapes_start, List.filter_nil]

theorem keptEscapes_of_isGap {ls : List Lexeme} (h : ∀ l ∈ ls, l.isGap = true) :
    keptEscapes ls = [] := by
  refine keptEscapes_eq_nil fun l hl hkind => ?_
  simpa [Lexeme.isGap, hkind] using h l hl

@[simp] theorem keptEscapes_charLexemes (chars : List Char) :
    keptEscapes (charLexemes chars) = [] := by
  refine keptEscapes_eq_nil fun l hl => ?_
  obtain ⟨c, -, rfl⟩ := List.mem_map.mp hl
  exact startKind_ne_controlSymbol c

/-! ### Finding control symbols by the character -/

/-- What the next character of a text belongs to, as far as control symbols go. -/
inductive EscapeState where
  | plain
  /-- Behind a percent sign, on the same line. -/
  | comment
  /-- Right behind a backslash. -/
  | backslash

/-- What the character after `c` belongs to. -/
def EscapeState.next (c : Char) : EscapeState → EscapeState
  | .plain => if c = '%' then .comment else if c = '\\' then .backslash else .plain
  | .comment => if c = '\n' then .plain else .comment
  | .backslash => .plain

/-- The control symbol that ends with the character `c`, if any. -/
def EscapeState.found (c : Char) : EscapeState → List (List Char)
  | .backslash => if c.isAlpha then [] else [['\\', c]]
  | _ => []

/-- The control symbols that end in a text. -/
def escapesFrom (s : EscapeState) : List Char → List (List Char)
  | [] => []
  | c :: cs => s.found c ++ escapesFrom (s.next c) cs

/-- What a character after a lexeme would belong to. -/
def Lexeme.escapeState (l : Lexeme) : EscapeState :=
  if l.kind = .comment then .comment else if l.text = ['\\'] then .backslash else .plain

/-- The state behind a single character is one step from the start. -/
theorem escapeState_start (c : Char) :
    (Lexeme.start c).escapeState = EscapeState.plain.next c := by
  have hcomment : (Lexeme.start c).kind = .comment ↔ c = '%' :=
    ⟨Lexeme.opens_of_startKind, fun h => h ▸ rfl⟩
  simp only [Lexeme.escapeState, hcomment, EscapeState.next, Lexeme.text_start,
    List.cons.injEq, and_true]

/-- Behind most lexemes the scan is as at the start. -/
theorem escapeState_of_plain {l : Lexeme} (hkind : l.kind ≠ .comment)
    (hback : l.text ≠ ['\\']) :
    l.escapeState = .plain := by
  rw [Lexeme.escapeState, if_neg hkind, if_neg hback]

theorem ne_marks_of_isAlpha {c : Char} (h : c.isAlpha = true) : c ≠ '%' ∧ c ≠ '\\' := by
  constructor <;> rintro rfl <;> exact absurd h (by decide)

/-- Only percent signs and backslashes lead away from the start. -/
theorem next_plain {c : Char} (h : c ≠ '%' ∧ c ≠ '\\') :
    EscapeState.plain.next c = .plain := by
  rw [EscapeState.next, if_neg h.1, if_neg h.2]

/-- A backslash alone takes in any character. -/
theorem extend?_ne_none_of_backslash {l : Lexeme} (hl : l.Proper)
    (hback : l.text = ['\\']) (c : Char) :
    l.extend? c ≠ none := by
  obtain ⟨kind, text⟩ := l
  obtain rfl : text = ['\\'] := hback
  cases kind with
  | other => simp [Lexeme.extend?, Lexeme.extendKind?]
  | comment =>
      obtain ⟨cs, hcs, -⟩ := hl
      simp at hcs
  | blank => exact absurd (hl.2 '\\' (by simp)) (by decide)
  | controlWord =>
      obtain ⟨cs, hcs, hne, -⟩ := hl
      exact absurd (List.cons.inj hcs).2.symm hne
  | controlSymbol =>
      obtain ⟨d, hd, -⟩ := hl
      simp at hd
  | _ =>
      obtain ⟨d, hd, hkind⟩ := hl
      obtain rfl : '\\' = d := (List.cons.inj hd).1
      exact absurd hkind (by decide)

/-- A lexeme that cannot take in a character leaves it to the next lexeme. -/
theorem escapes_of_extend_none {l : Lexeme} {c : Char} (hl : l.Proper)
    (h : l.extend? c = none) :
    l.escapeState.found c = [] ∧ l.escapeState.next c = EscapeState.plain.next c := by
  by_cases hcomment : l.kind = .comment
  · obtain rfl : c = '\n' := by
      simpa [Lexeme.extend?, Lexeme.extendKind?, hcomment] using h
    simp +decide [Lexeme.escapeState, hcomment, EscapeState.found, EscapeState.next]
  · have hback : l.text ≠ ['\\'] :=
      fun hback => extend?_ne_none_of_backslash hl hback c h
    rw [escapeState_of_plain hcomment hback]
    exact ⟨rfl, rfl⟩

/-- A lexeme that takes in a character becomes a control symbol only behind a
backslash. -/
theorem escapes_of_extend {l longer : Lexeme} {c : Char} (hl : l.Proper)
    (h : l.extend? c = some longer) :
    lexemesEscapes [longer] = lexemesEscapes [l] ++ l.escapeState.found c ∧
      longer.escapeState = l.escapeState.next c := by
  -- A lexeme has a character already, so with one more it cannot be a lone
  -- backslash.
  have hlong : longer.text ≠ ['\\'] := by
    intro hback
    have hlength := congrArg List.length
      ((Lexeme.extend?_proper hl h).2.symm.trans hback)
    exact hl.text_ne_nil (List.eq_nil_of_length_eq_zero (by simpa using hlength))
  obtain ⟨kind, text⟩ := l
  simp only [Lexeme.extend?, Option.map_eq_some_iff] at h
  obtain ⟨kind', hkind, rfl⟩ := h
  cases kind with
  | comment =>
      simp only [Lexeme.extendKind?, Option.ite_none_left_eq_some,
        Option.some.injEq] at hkind
      obtain ⟨hc, rfl⟩ := hkind
      simp [lexemesEscapes, Lexeme.escapeState, EscapeState.found, EscapeState.next, hc]
  | blank =>
      simp only [Lexeme.extendKind?, Option.ite_none_right_eq_some,
        Option.some.injEq] at hkind
      obtain ⟨hc, rfl⟩ := hkind
      have hback : text ≠ ['\\'] := by
        rintro rfl
        exact absurd (hl.2 '\\' (by simp)) (by decide)
      have hblank : c ≠ '%' ∧ c ≠ '\\' := by
        constructor <;> rintro rfl <;> exact absurd hc (by decide)
      rw [escapeState_of_plain (by simp) hback,
        escapeState_of_plain (by simp) hlong, next_plain hblank]
      exact ⟨rfl, rfl⟩
  | controlWord =>
      simp only [Lexeme.extendKind?, Option.ite_none_right_eq_some,
        Option.some.injEq] at hkind
      obtain ⟨hc, rfl⟩ := hkind
      obtain ⟨cs, rfl, hne, -⟩ := hl
      have hback : '\\' :: cs ≠ ['\\'] := by simpa using hne
      rw [escapeState_of_plain (by simp) hback, escapeState_of_plain (by simp) hlong,
        next_plain (ne_marks_of_isAlpha hc)]
      exact ⟨rfl, rfl⟩
  | other =>
      simp only [Lexeme.extendKind?, Option.ite_none_right_eq_some,
        Option.some.injEq] at hkind
      obtain ⟨rfl, rfl⟩ := hkind
      by_cases hc : c.isAlpha = true <;>
        simp [lexemesEscapes, Lexeme.escapeState, EscapeState.found,
          EscapeState.next, hc]
  | _ => simp [Lexeme.extendKind?] at hkind

/-- The escapes of a source are those of the lexeme at hand and those that the scan
finds from its state on. -/
theorem lexemesEscapes_lexFrom {l : Lexeme} (hl : l.Proper) (cs : List Char) :
    lexemesEscapes (lexFrom l cs) =
      lexemesEscapes [l] ++ escapesFrom l.escapeState cs := by
  induction cs generalizing l with
  | nil => simp [lexFrom, escapesFrom]
  | cons c cs ih =>
      cases h : l.extend? c with
      | none =>
          obtain ⟨hfound, hnext⟩ := escapes_of_extend_none hl h
          rw [lexFrom_of_extend_none h, lexemesEscapes_cons,
            ih (Lexeme.start_proper c), escapesFrom, hfound, hnext,
            lexemesEscapes_start, escapeState_start]
      | some longer =>
          obtain ⟨hescapes, hnext⟩ := escapes_of_extend hl h
          rw [lexFrom_of_extend h, ih (Lexeme.extend?_proper hl h).1,
            escapesFrom, hescapes, hnext, List.append_assoc]

/-- The control symbols of a text can be found one character at a time. -/
theorem lexemesEscapes_lex (cs : List Char) :
    lexemesEscapes (lex cs) = escapesFrom .plain cs := by
  cases cs with
  | nil => rfl
  | cons c cs =>
      rw [lex, lexemesEscapes_lexFrom (Lexeme.start_proper c),
        lexemesEscapes_start, escapeState_start]
      rfl

/-- The control symbols of a source are those that the scan finds. -/
theorem controlSymbols_eq (source : String) :
    controlSymbols source = escapesFrom .plain source.toList := by
  rw [controlSymbols, map_lexeme_tokenize, lexemesEscapes_lex]

/-! ### The control symbols that a text adds -/

/-- A text that has the control symbols `escapes` and leaves those of any text after
it as they are. -/
def HasEscapes (text : List Char) (escapes : List (List Char)) : Prop :=
  ∀ rest, escapesFrom .plain (text ++ rest) = escapes ++ escapesFrom .plain rest

theorem hasEscapes_nil : HasEscapes [] [] :=
  fun _ => rfl

/-- Texts in a row have the escapes of both, since the scan is at the start in
between. -/
theorem HasEscapes.append {cs ds : List Char} {es fs : List (List Char)}
    (hcs : HasEscapes cs es) (hds : HasEscapes ds fs) :
    HasEscapes (cs ++ ds) (es ++ fs) := by
  intro rest
  rw [List.append_assoc, hcs, hds, List.append_assoc]

/-- The escapes of a text are those that the scan finds in it. -/
theorem HasEscapes.eq {cs : List Char} {es : List (List Char)} (h : HasEscapes cs es) :
    escapesFrom .plain cs = es := by
  simpa [escapesFrom] using h []

/-- Text without percent signs and backslashes has no control symbols. -/
theorem hasEscapes_plain {cs : List Char}
    (h : cs.all (fun c => c ≠ '%' ∧ c ≠ '\\') = true) :
    HasEscapes cs [] := by
  intro rest
  induction cs with
  | nil => rfl
  | cons c cs ih =>
      simp only [List.all_cons, Bool.and_eq_true, decide_eq_true_eq] at h
      rw [List.cons_append, escapesFrom, next_plain h.1]
      exact ih h.2

/-- So has text that is read as text, unless there is a lone backslash. -/
theorem hasEscapes_text {chars : List Char}
    (htext : ∀ c ∈ chars, (Lexeme.startKind c).isText = true)
    (hback : ∀ c ∈ chars, c ≠ '\\') : HasEscapes chars [] := by
  refine hasEscapes_plain
    (List.all_eq_true.mpr fun c hc => decide_eq_true ⟨?_, hback c hc⟩)
  rintro rfl
  exact absurd (htext '%' hc) (by decide)

theorem hasEscapes_controlWord {cs : List Char} (hne : cs ≠ [])
    (halpha : ∀ c ∈ cs, c.isAlpha = true) :
    HasEscapes ('\\' :: cs) [] := by
  intro rest
  cases cs with
  | nil => exact absurd rfl hne
  | cons c cs =>
      have hcs : HasEscapes cs [] := by
        refine hasEscapes_plain (List.all_eq_true.mpr fun d hd => decide_eq_true ?_)
        exact ne_marks_of_isAlpha (halpha d (by simp [hd]))
      simpa [escapesFrom, EscapeState.found, EscapeState.next, halpha c (by simp)]
        using hcs rest

/-- A backslash with a character that is no letter is one escape. -/
theorem hasEscapes_controlSymbol {c : Char} (h : ¬ c.isAlpha = true) :
    HasEscapes ['\\', c] [['\\', c]] := by
  intro rest
  simp [escapesFrom, EscapeState.found, EscapeState.next, h]

theorem HasEscapes.braced {cs : List Char} {es : List (List Char)}
    (h : HasEscapes cs es) :
    HasEscapes (braced cs) es := by
  have hopen : HasEscapes ['\x7b'] [] := hasEscapes_plain (by decide)
  have hclose : HasEscapes ['\x7d'] [] := hasEscapes_plain (by decide)
  simpa [Variable.braced] using hopen.append (h.append hclose)

theorem HasEscapes.formatModifier {cs : List Char} {es : List (List Char)}
    (h : HasEscapes cs es) :
    HasEscapes (formatModifier cs) es := by
  unfold Variable.formatModifier
  split
  · split_ifs
    · exact h
    · exact h.braced
  · exact h.braced

/-! ### Written nodes -/

variable {table : CommandTable}

/-- Arguments whose contents have the control symbols `escapes`, one after the other,
between marks that have none. -/
def argumentsHaveEscapes (table : CommandTable) :
    List Argument → List (List Char) → Prop
  | [], escapes => escapes = []
  | .mk opening closing content :: rest, escapes =>
    HasEscapes opening.toList [] ∧ HasEscapes closing.toList [] ∧
      ∃ es fs, escapes = es ++ fs ∧ HasEscapes (nodesWritten table content) es ∧
        argumentsHaveEscapes table rest fs

/-- Arguments in a row are written with the escapes of all of them. -/
theorem argumentsHaveEscapes.written {args : List Argument} {escapes : List (List Char)}
    (h : argumentsHaveEscapes table args escapes) :
    HasEscapes (argumentsWritten table args) escapes := by
  induction args generalizing escapes with
  | nil =>
      obtain rfl : escapes = [] := h
      exact hasEscapes_nil
  | cons arg args ih =>
      cases arg with
      | mk opening closing content =>
          obtain ⟨hopen, hclose, es, fs, rfl, hcontent, hrest⟩ := h
          exact hopen.append (hcontent.append (hclose.append (ih hrest)))

/-- What is written for the name of a command. -/
def headWritten (name : String) : List Char :=
  if isScriptName name then name.toList else '\\' :: name.toList

/-- A command has the control symbols of its name and then those of its arguments, if
there are no arguments that are not written. -/
theorem hasEscapes_command {name : String} {args : List Argument} {span : Option Span}
    {es fs : List (List Char)} (hname : HasEscapes (headWritten name) es)
    (hargs : argumentsHaveEscapes table args fs)
    (hsingle : (isScriptName name || table.isDecorator name) = true → args.length ≤ 1) :
    HasEscapes (nodeWritten table (.command name args span)) (es ++ fs) := by
  match args, hargs with
  | [], hargs =>
      obtain rfl : fs = [] := hargs
      simpa [nodeWritten, headWritten] using hname
  | .mk opening closing content :: rest,
      ⟨hopen, hclose, gs, hs, hfs, hcontent, hrest⟩ =>
      subst hfs
      have hlast : (isScriptName name || table.isDecorator name) = true → hs = [] := by
        intro h
        obtain rfl : rest = [] :=
          List.eq_nil_of_length_eq_zero (by simpa using hsingle h)
        exact hrest
      by_cases hscript : isScriptName name = true
      · obtain rfl := hlast (by simp [hscript])
        simpa [nodeWritten, headWritten, hscript]
          using hname.append hcontent.formatModifier
      · by_cases hdecorator : table.isDecorator name = true
        · obtain rfl := hlast (by simp [hdecorator])
          simpa [nodeWritten, headWritten, hscript, hdecorator]
            using hname.append hcontent.braced
        · simpa [nodeWritten, headWritten, hscript, hdecorator] using
            hname.append (hopen.append (hcontent.append (hclose.append hrest.written)))

/-- The head of a command is written as an escape exactly if it is a control symbol
that keeps its backslash. -/
theorem hasEscapes_head {head : Lexeme} (hhead : head.Proper)
    (hkind : head.kind = .controlWord ∨
      head.kind = .controlSymbol ∨ head.kind = .subscript ∨ head.kind = .superscript) :
    HasEscapes (headWritten head.name) (keptEscapes [head]) := by
  obtain ⟨kind, text⟩ := head
  rcases hkind with rfl | rfl | hmark
  · have hname : isScriptName (Lexeme.name ⟨.controlWord, text⟩) = false :=
      isScriptName_eq_false_of_controlWord hhead rfl
    have htext : text = '\\' :: (Lexeme.name ⟨.controlWord, text⟩).toList :=
      text_eq_of_controlWord hhead rfl
    obtain ⟨cs, hcs, hne, halpha⟩ := hhead
    rw [headWritten, hname, if_neg Bool.false_ne_true, ← htext]
    obtain rfl : text = '\\' :: cs := hcs
    exact hasEscapes_controlWord hne halpha
  · obtain ⟨c, hc, halpha⟩ := hhead
    obtain rfl : text = ['\\', c] := hc
    by_cases hscript : c = '_' ∨ c = '^'
    · -- The mark is written bare and stands for a script when it is read.
      rcases hscript with rfl | rfl <;> exact hasEscapes_plain (by decide)
    · have hname : isScriptName (Lexeme.name ⟨.controlSymbol, ['\\', c]⟩) = false := by
        simpa [isScriptName, Lexeme.name, ← String.toList_inj] using hscript
      have hkept : keptEscapes [⟨.controlSymbol, ['\\', c]⟩] = [['\\', c]] := by
        simpa [keptEscapes, lexemesEscapes, isScriptEscape] using hscript
      rw [headWritten, hname, hkept]
      simpa [Lexeme.name] using hasEscapes_controlSymbol halpha
  · rw [headWritten, if_pos (isScriptName_of_mark hhead hmark)]
    rcases hmark with h | h
    · have hstart : _ = Lexeme.start '_' := hhead.eq_start_of_mark (by simp) h
      rw [hstart]
      exact hasEscapes_plain (by decide)
    · have hstart : _ = Lexeme.start '^' := hhead.eq_start_of_mark (by simp) h
      rw [hstart]
      exact hasEscapes_plain (by decide)

/-- A lexeme that is an argument by itself keeps its escape. -/
theorem hasEscapes_atom {l : Lexeme} (hproper : l.Proper) (hback : l.text ≠ ['\\'])
    (hkind : l.kind.isText = true ∨ l.kind = .controlSymbol ∨ l.kind = .controlWord)
    (start : Nat) :
    HasEscapes (nodeWritten table ((atom l).node start))
      (keptEscapes (atom l).lexemes) := by
  rcases hkind with hkind | hkind
  · obtain ⟨c, rfl⟩ := hproper.eq_start_of_isText hkind
    have htext : ∀ d ∈ [c], (Lexeme.startKind d).isText = true := by
      rintro d hd
      rwa [List.mem_singleton.mp hd]
    rw [atom_start hkind, Tree.lexemes, keptEscapes_charLexemes, Tree.node, nodeWritten]
    exact hasEscapes_text htext (by simpa using hback)
  · have hhead := hasEscapes_head hproper (or_assoc.mp (.inl hkind.symm))
    have hargs : argumentsHaveEscapes table [] [] := rfl
    rw [atom, if_pos hkind.symm, Tree.plain, Tree.node, Tree.lexemes,
      argsLexemes, argsArguments, ← List.append_nil (keptEscapes _)]
    exact hasEscapes_command hhead hargs (by simp)

theorem hasEscapes_marks (enclosure : Enclosure) :
    HasEscapes enclosure.marks.1.toList [] ∧
      HasEscapes enclosure.marks.2.toList [] := by
  rcases enclosure with _ | (_ | _) | (_ | _) <;>
    exact ⟨hasEscapes_plain (by decide), hasEscapes_plain (by decide)⟩

mutual

/-- What is written for a tree has the escapes of its lexemes that are kept. -/
theorem Tree.hasEscapes_of_reads (horderly : table.Orderly) :
    (t : Tree) → (start : Nat) → (scope : Scope) → (mode : Mode) →
    (rest : List Lexeme) → t.Reads table scope mode rest →
      (∀ l ∈ t.lexemes, l.Proper ∧ l.text ≠ ['\\']) →
      HasEscapes (nodeWritten table (t.node start)) (keptEscapes t.lexemes)
  | .text chars, start, _, _, _, hreads, hlexemes => by
      simp only [Tree.Reads] at hreads
      rw [Tree.lexemes, keptEscapes_charLexemes, Tree.node, nodeWritten]
      refine hasEscapes_text (isText_of_readsText hreads) ?_
      rintro c hc rfl
      exact (hlexemes (Lexeme.start '\\') (List.mem_map_of_mem hc)).2 rfl
  | .gap lexeme, start, _, _, _, hreads, _ => by
      simp only [Tree.Reads] at hreads
      rw [Tree.lexemes, keptEscapes_of_isGap (by simpa using hreads), Tree.node]
      split_ifs
      · rw [nodeWritten]
        exact hasEscapes_nil
      · rw [nodeWritten]
        exact hasEscapes_plain (by decide)
  | .stray, start, _, _, _, _, _ => by
      rw [Tree.node, nodeWritten]
      exact hasEscapes_plain (by decide)
  | .group body closed, start, _, mode, rest, hreads, hlexemes => by
      simp only [Tree.Reads] at hreads
      have hbody := treesHaveEscapes_of_read horderly body (start + 1)
        .braces mode _ hreads.1
        fun l hl => hlexemes l (by simp [hl])
      rw [Tree.node, nodeWritten, Tree.lexemes, keptEscapes_cons, keptEscapes_start]
      simpa using hbody
  | .command head args missing, start, _, mode, rest, hreads, hlexemes => by
      simp only [Tree.Reads] at hreads
      have hhead := (hlexemes head (by simp)).1
      rw [Tree.node, Tree.lexemes, keptEscapes_cons]
      rcases hreads with ⟨hkind, rfl, -⟩ | ⟨hkind, hargs⟩
      · exact hasEscapes_command (hasEscapes_head hhead (.inr (.inl hkind)))
          rfl (by simp [argsArguments])
      · have hsingle := (command_fits horderly hhead hkind hargs).2
        rw [← length_argsArguments (start + head.text.length) args] at hsingle
        refine hasEscapes_command
          (hasEscapes_head hhead (hkind.imp_right .inr)) ?_ hsingle
        exact argumentsHaveEscapes_of_read horderly args _ _ _ rest missing hargs
          fun l hl => hlexemes l (by simp [hl])

/-- Nodes that are written anew have the control symbols that they were read from,
without the escaped script marks. -/
theorem treesHaveEscapes_of_read (horderly : table.Orderly) :
    (ts : List Tree) → (start : Nat) → (scope : Scope) → (mode : Mode) →
    (rest : List Lexeme) → treesRead table scope mode rest ts →
      (∀ l ∈ treesLexemes ts, l.Proper ∧ l.text ≠ ['\\']) →
      HasEscapes (nodesWritten table (treesNodes start ts))
        (keptEscapes (treesLexemes ts))
  | [], _, _, _, _, _, _ => hasEscapes_nil
  | t :: ts, start, scope, mode, rest, hreads, hlexemes => by
      simp only [treesRead] at hreads
      rw [treesNodes, nodesWritten, treesLexemes, keptEscapes_append]
      exact (t.hasEscapes_of_reads horderly start scope mode _ hreads.1
          fun l hl => hlexemes l (by simp [hl])).append
        (treesHaveEscapes_of_read horderly ts _ scope mode rest hreads.2 fun l hl =>
          hlexemes l (by simp [hl]))

/-- What is written for arguments has the escapes of their lexemes that are kept. -/
theorem argumentsHaveEscapes_of_read (horderly : table.Orderly) :
    (args : List Arg) → (start : Nat) → (mode : Mode) → (slots : List Slot) →
    (rest : List Lexeme) → (missing : Bool) →
    argsRead table mode slots rest missing args →
      (∀ l ∈ argsLexemes args, l.Proper ∧ l.text ≠ ['\\']) →
      argumentsHaveEscapes table (argsArguments start args)
        (keptEscapes (argsLexemes args))
  | [], _, _, _, _, _, _, _ => rfl
  | .mk before enclosure body :: args, start, mode, slots, rest, missing,
      hreads, hlexemes => by
      obtain ⟨hbefore, -, hcontent, left, hargs⟩ := argsRead_cons hreads
      have hinside : ∀ l ∈ treesLexemes body, l.Proper ∧ l.text ≠ ['\\'] :=
        fun l hl => hlexemes l (by simp [hl])
      rw [argsArguments, argumentsHaveEscapes]
      refine ⟨(hasEscapes_marks enclosure).1, (hasEscapes_marks enclosure).2,
        keptEscapes (treesLexemes body), keptEscapes (argsLexemes args),
        by simp [keptEscapes_of_isGap hbefore], ?_,
        argumentsHaveEscapes_of_read horderly args _ mode left rest missing hargs
          fun l hl => hlexemes l (by simp [hl])⟩
      rcases hcontent with ⟨scope, -, hbody⟩ | ⟨slots', left', hbody⟩
      · exact treesHaveEscapes_of_read horderly body _ scope mode _ hbody hinside
      · exact treesHaveEscapes_of_bare horderly body _ mode slots' left' _ hbody hinside

theorem treesHaveEscapes_of_bare (horderly : table.Orderly) :
    (body : List Tree) → (start : Nat) → (mode : Mode) → (slots left : List Slot) →
    (rest : List Lexeme) → bareReads table mode slots left rest body →
    (∀ l ∈ treesLexemes body, l.Proper ∧ l.text ≠ ['\\']) →
      HasEscapes (nodesWritten table (treesNodes start body))
        (keptEscapes (treesLexemes body))
  | [], _, _, _, _, _, hreads, _ => by simp only [bareReads] at hreads
  | [t], start, mode, _, _, rest, hreads, hlexemes => by
      simp only [bareReads] at hreads
      simp only [treesLexemes, List.append_nil] at hlexemes
      simp only [treesNodes, nodesWritten, treesLexemes, List.append_nil]
      obtain ⟨l, hl, hcases⟩ := hreads
      obtain ⟨hproper, hback⟩ := hlexemes l (List.mem_of_mem_head? hl)
      obtain ⟨-, hdelimiter, rfl⟩ | ⟨-, ⟨-, ht⟩ | ⟨hkind, rfl⟩⟩ := hcases
      · refine hasEscapes_atom hproper hback ?_ start
        cases hkind : l.kind <;> simp_all [isDelimiter, LexemeKind.isText]
      · exact t.hasEscapes_of_reads horderly start .top mode rest ht hlexemes
      · exact hasEscapes_atom hproper hback (hkind.imp_right .inl) start
  | _ :: _ :: _, _, _, _, _, _, hreads, _ => by simp only [bareReads] at hreads

end

/-- Among the lexemes of a text only the last can be a backslash alone. -/
theorem ne_backslash_of_getLast? {ls : List Lexeme} (hproper : ∀ l ∈ ls, l.Proper)
    (hapart : ls.IsChain Lexeme.Apart) (hlast : ∀ l ∈ ls.getLast?, l.text ≠ ['\\']) :
    ∀ l ∈ ls, l.text ≠ ['\\'] := by
  induction ls with
  | nil => simp
  | cons l ls ih =>
      cases ls with
      | nil => simpa using hlast
      | cons m ms =>
          obtain ⟨hlm, hrest⟩ := List.isChain_cons_cons.mp hapart
          have hfirst : l.text ≠ ['\\'] := by
            intro hback
            obtain ⟨c, cs, htext⟩ :=
              List.exists_cons_of_ne_nil (hproper m (by simp)).text_ne_nil
            exact extend?_ne_none_of_backslash (hproper l (by simp)) hback c
              (hlm c (by simp [htext]))
          have htail := ih (fun k hk => hproper k (by simp [hk])) hrest
            (by simpa using hlast)
          exact List.forall_mem_cons.mpr ⟨hfirst, htail⟩

/-- What is written for the nodes of a source has the control symbols of the source
without the escaped script marks. -/
theorem escapes_written (horderly : table.Orderly) {source : String}
    (hlast : ∀ l ∈ (lex source.toList).getLast?, l.text ≠ ['\\']) :
    escapesFrom .plain (nodesWritten table (parse table source).nodes) =
      keptEscapes (lex source.toList) := by
  have hlex := parse_lexemes table source
  have hback := ne_backslash_of_getLast? (lex_proper _) (lex_apart _) hlast
  rw [← hlex]
  refine (treesHaveEscapes_of_read horderly _ 0 .top .math []
    (parse_reads table source) fun l hl => ?_).eq
  rw [hlex] at hl
  exact ⟨lex_proper _ l hl, hback l hl⟩

/-- **Written markup keeps all control symbols but escaped script marks.**  For a
source that does not end in a lone backslash, the control symbols of what is written
are those of the source in the same order, without every `\_` and `\^`.  So they are
the same exactly if the source escapes no script mark. -/
theorem controlSymbols_written (source : String)
    (hlast : ∀ token ∈ (tokenize source).getLast?, token.lexeme.text ≠ ['\\']) :
    let written := String.ofList (nodesWritten .standard (parse .standard source).nodes)
    controlSymbols written = (controlSymbols source).filter (!isScriptEscape ·) ∧
      (controlSymbols written = controlSymbols source ↔
        ∀ symbol ∈ controlSymbols source, isScriptEscape symbol = false) := by
  intro written
  have hlexemes : ∀ l ∈ (lex source.toList).getLast?, l.text ≠ ['\\'] := by
    intro l hl
    rw [← map_lexeme_placeFrom 0 (lex source.toList), List.getLast?_map] at hl
    obtain ⟨token, htoken, rfl⟩ := Option.map_eq_some_iff.mp hl
    exact hlast token htoken
  have hkept : controlSymbols written =
      (controlSymbols source).filter (!isScriptEscape ·) := by
    rw [controlSymbols_eq, String.toList_ofList,
      escapes_written CommandTable.standard_orderly hlexemes, controlSymbols, tokenize,
      map_lexeme_placeFrom]
    rfl
  refine ⟨hkept, ?_⟩
  rw [hkept, List.filter_eq_self]
  simp

/-- A source with escaped braces, a percent sign behind a backslash, a comment that
hides a control symbol, and an escaped script mark in a group. -/
theorem controlSymbols_written_delimiters :
    let source := "\\left\\\x7b x_\x7b\\,\\%\x7d % \\;\n\\alpha\x7bb\\_\x7d\\right\\\x7d"
    let written := String.ofList (nodesWritten .standard (parse .standard source).nodes)
    (∀ token ∈ (tokenize source).getLast?, token.lexeme.text ≠ ['\\']) ∧
      controlSymbols source =
        [['\\', '\x7b'], ['\\', ','], ['\\', '%'], ['\\', '_'], ['\\', '\x7d']] ∧
      controlSymbols written =
        [['\\', '\x7b'], ['\\', ','], ['\\', '%'], ['\\', '\x7d']] := by
  intro source written
  have hlast : ∀ token ∈ (tokenize source).getLast?, token.lexeme.text ≠ ['\\'] := by
    decide +kernel
  have hsource : controlSymbols source =
      [['\\', '\x7b'], ['\\', ','], ['\\', '%'], ['\\', '_'], ['\\', '\x7d']] := by
        decide +kernel
  refine ⟨hlast, hsource, ?_⟩
  rw [(controlSymbols_written source hlast).1, hsource]
  decide

/-- The backslash of an escaped script mark is lost, and with it the control
symbol. -/
theorem escaped_mark_loses_backslash :
    let written := String.ofList
      (nodesWritten .standard (parse .standard "a\\_b").nodes)
    written = "a_b" ∧ controlSymbols "a\\_b" = [['\\', '_']] ∧
      controlSymbols written = [] := by
  decide +kernel

end Formulary.Markup
