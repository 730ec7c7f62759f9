import Formulary.Markup.Document
import Formulary.Proofs.Reading

/-!
# Every source has exactly one reading

`Reading` shows that the reader finds any reading that there is.  Here it is shown
that there always is one, by an induction on the lexemes that are left: whatever
comes first, some rule of the grammar takes it, and what remains is shorter.  Together
the two say what the reader does: `readTrees_eq_iff` is the grammar as the
specification of the reader, and `parse_reads` and `parse_lexemes` are its two halves
for a source.
-/

namespace Formulary.Markup

variable {table : CommandTable}

/-! ### Single characters among the lexemes -/

namespace Lexeme

theorem Proper.eq_start_of_isText {l : Lexeme} (hl : l.Proper)
    (h : l.kind.isText = true) :
    ∃ c, l = start c := by
  obtain ⟨kind, text⟩ := l
  rcases LexemeKind.eq_of_isText h with hkind | hkind | hkind
  all_goals
    obtain rfl : kind = _ := hkind
    obtain ⟨c, rfl, hc⟩ := hl
    exact ⟨c, by rw [start, hc]⟩

/-- Braces and script marks are the only characters of their kinds. -/
theorem Proper.eq_start_of_mark {l : Lexeme} (hl : l.Proper) {mark : Char}
    (hmark : mark = '{' ∨ mark = '}' ∨ mark = '_' ∨ mark = '^')
    (h : l.kind = startKind mark) :
    l = start mark := by
  obtain ⟨kind, text⟩ := l
  obtain rfl : kind = startKind mark := h
  have hsingle : ∃ c, text = [c] ∧ startKind c = startKind mark := by
    rcases hmark with rfl | rfl | rfl | rfl <;> exact hl
  obtain ⟨c, rfl, hc⟩ := hsingle
  have hmarks : startKind '{' = .openBrace ∧ startKind '}' = .closeBrace ∧
      startKind '_' = .subscript ∧ startKind '^' = .superscript := by decide
  have heq : c = mark := by
    rcases hmark with rfl | rfl | rfl | rfl
    all_goals
      simp only [hmarks] at hc
      exact opens_of_startKind hc
  rw [heq]
  rfl

theorem Proper.eq_openBrace {l : Lexeme} (hl : l.Proper) (h : l.kind = .openBrace) :
    l = start '{' :=
  hl.eq_start_of_mark (by simp) h

theorem Proper.eq_closeBrace {l : Lexeme} (hl : l.Proper) (h : l.kind = .closeBrace) :
    l = start '}' :=
  hl.eq_start_of_mark (by simp) h

end Lexeme

theorem eq_start_of_isOpenBracket {l : Lexeme} (h : isOpenBracket l = true) :
    l = Lexeme.start '[' := by
  obtain ⟨kind, text⟩ := l
  obtain ⟨rfl, rfl⟩ : kind = .other ∧ text = ['['] := by simpa [isOpenBracket] using h
  rfl

theorem eq_start_of_isCloseBracket {l : Lexeme} (h : isCloseBracket l = true) :
    l = Lexeme.start ']' := by
  obtain ⟨kind, text⟩ := l
  obtain ⟨rfl, rfl⟩ : kind = .other ∧ text = [']'] := by simpa [isCloseBracket] using h
  rfl

/-- What may be an argument by itself is one lexeme. -/
theorem lexemes_atom_of_proper {l : Lexeme} (hl : l.Proper)
    (h : l.kind.isText = true ∨ l.kind = .controlSymbol ∨ l.kind = .controlWord) :
    (atom l).lexemes = [l] := by
  rcases h with h | h | h
  · obtain ⟨c, rfl⟩ := hl.eq_start_of_isText h
    have hcontrol : ¬ ((Lexeme.start c).kind = .controlWord ∨
        (Lexeme.start c).kind = .controlSymbol) := by
      rcases LexemeKind.eq_of_isText h with h | h | h <;> simp [h]
    rw [atom, if_neg hcontrol]
    rfl
  · rw [atom, if_pos (.inr h)]
    rfl
  · rw [atom, if_pos (.inl h)]
    rfl

/-! ### Slots -/

/-- An optional slot is only reached with a bracket. -/
theorem eq_of_skipOptional_optional {l : Lexeme} {slots left : List Slot}
    (h : skipOptional l slots = .optional :: left) :
    slots = .optional :: left ∧ isOpenBracket l = true := by
  induction slots with
  | nil => simp [skipOptional] at h
  | cons slot slots ih =>
      cases slot with
      | optional =>
          cases hl : isOpenBracket l with
          | true => exact ⟨by simpa [skipOptional, hl] using h, rfl⟩
          | false =>
              have hskip : skipOptional l slots = .optional :: left := by
                simpa [skipOptional, hl] using h
              simp [hl] at ih
              exact absurd hskip ih
      | _ => simp [skipOptional] at h

/-- A closing brace is no argument of anything. -/
theorem accepts_closeBrace {l : Lexeme} (h : l.kind = .closeBrace) (slots : List Slot) :
    accepts l slots = false := by
  cases hslots : skipOptional l slots with
  | nil => simp [accepts, hslots]
  | cons slot left =>
      rw [accepts_of_skipOptional hslots]
      cases slot with
      | optional => simpa [isOpenBracket, h]
          using (eq_of_skipOptional_optional hslots).2
      | delimiter => simp [isDelimiter, h]
      | mandatory => simp [startsArgument, h]

/-! ### Reading on -/

/-- The lexemes in front of which a row of trees ends. -/
def Scope.stops : Scope → Lexeme → Bool
  | .top, _ => false
  | .braces, l => l.kind = .closeBrace
  | .brackets, l => l.kind = .closeBrace || isCloseBracket l

/-- Some trees can be read up to where their scope ends. -/
def CanReadTrees (table : CommandTable) (scope : Scope) (mode : Mode)
    (ls : List Lexeme) : Prop :=
  ∃ ts tail, ls = treesLexemes ts ++ tail ∧ treesRead table scope mode tail ts ∧
    ∀ l ∈ tail.head?, scope.stops l = true

/-- Some arguments, perhaps none, can be read for a command with these slots. -/
def CanReadArgs (table : CommandTable) (mode : Mode) (slots : List Slot)
    (ls : List Lexeme) :
    Prop :=
  ∃ args missing tail, ls = argsLexemes args ++ tail ∧
    argsRead table mode slots tail missing args

/-- Lexemes can be read wherever they stand. -/
structure Readable (table : CommandTable) (ls : List Lexeme) : Prop where
  trees : ∀ (scope : Scope) (mode : Mode), CanReadTrees table scope mode ls
  args : ∀ (mode : Mode) (slots : List Slot), CanReadArgs table mode slots ls

/-- From any place on there is a longest run of characters that join. -/
theorem exists_run (mode : Mode) (ls : List Lexeme) (hproper : ∀ l ∈ ls, l.Proper) :
    ∃ cs tail, ls = charLexemes cs ++ tail ∧
      (∀ c ∈ cs, mode.joins (Lexeme.startKind c) = true) ∧
      ∀ l ∈ tail.head?, mode.joins l.kind = false := by
  induction ls with
  | nil => exact ⟨[], [], rfl, by simp, by simp⟩
  | cons l ls ih =>
      cases hl : mode.joins l.kind with
      | false => exact ⟨[], l :: ls, rfl, by simp, by simpa using hl⟩
      | true =>
          obtain ⟨cs, tail, rfl, hcs, htail⟩ :=
            ih fun m hm => hproper m (List.mem_cons_of_mem l hm)
          obtain ⟨c, rfl⟩ :=
            (hproper l (by simp)).eq_start_of_isText (Mode.isText_of_joins hl)
          exact ⟨c :: cs, tail, rfl, List.forall_mem_cons.mpr ⟨hl, hcs⟩, htail⟩

section Step

variable {l : Lexeme} {rest : List Lexeme} {scope : Scope} {mode : Mode}
  {slots left : List Slot}

/-- A tree in front of a rest that can be read. -/
theorem Readable.cons_tree (hrest : Readable table rest) {t : Tree}
    (ht : t.Reads table scope mode rest) :
    CanReadTrees table scope mode (t.lexemes ++ rest) := by
  obtain ⟨ts, tail, rfl, hts, htail⟩ := hrest.trees scope mode
  refine ⟨t :: ts, tail, by simp, ?_, htail⟩
  simp only [treesRead]
  exact ⟨ht, hts⟩

/-- A run of characters, or a single one, in front of a rest that can be read. -/
theorem canReadTrees_text {c : Char} (hproper : ∀ m ∈ rest, m.Proper)
    (hc : (Lexeme.startKind c).isText = true)
    (hstop : scope.stops (Lexeme.start c) = false)
    (ih : ∀ ls, ls <:+ rest → Readable table ls) :
    CanReadTrees table scope mode (Lexeme.start c :: rest) := by
  have hbracket : scope = .brackets → c ≠ ']' := by
    rintro rfl rfl
    exact absurd hstop (by decide)
  cases hjoin : mode.joins (Lexeme.startKind c) with
  | false =>
      have ht : (Tree.text [c]).Reads table scope mode rest := by
        simp only [Tree.Reads]
        exact ⟨by simpa using hbracket, .inl ⟨c, rfl, hc, hjoin⟩⟩
      exact (ih rest List.suffix_rfl).cons_tree ht
  | true =>
      obtain ⟨cs, tail, rfl, hcs, hend⟩ := exists_run mode rest hproper
      have ht : (Tree.text (c :: cs)).Reads table scope mode tail := by
        simp only [Tree.Reads]
        exact ⟨by simpa using hbracket,
          .inr ⟨by simp, List.forall_mem_cons.mpr ⟨hjoin, hcs⟩, hend⟩⟩
      exact (ih tail (List.suffix_append _ _)).cons_tree ht

/-- The content of braces, closed or not, and what comes after it. -/
theorem exists_braces (mode : Mode) (hproper : ∀ m ∈ rest, m.Proper)
    (hrest : Readable table rest) :
    ∃ body closed tail,
      rest = treesLexemes body ++
        (charLexemes (Enclosure.braces closed).closing ++ tail) ∧
        treesRead table .braces mode
          (charLexemes (Enclosure.braces closed).closing ++ tail) body ∧
        (closed = false → tail = []) := by
  obtain ⟨body, tail, rfl, hbody, hstop⟩ := hrest.trees .braces mode
  cases tail with
  | nil => exact ⟨body, false, [], rfl, hbody, fun _ => rfl⟩
  | cons l tail =>
      have hkind : l.kind = .closeBrace := by simpa [Scope.stops] using hstop l rfl
      obtain rfl := (hproper l (by simp)).eq_closeBrace hkind
      exact ⟨body, true, tail, rfl, hbody, by simp⟩

/-- The content of brackets, closed or not, and what comes after it. -/
theorem exists_brackets (mode : Mode) (hrest : Readable table rest) :
    ∃ body closed tail,
      rest = treesLexemes body ++
        (charLexemes (Enclosure.brackets closed).closing ++ tail) ∧
        treesRead table .brackets mode
          (charLexemes (Enclosure.brackets closed).closing ++ tail) body ∧
        (closed = false → ∀ l ∈ tail.head?, l.kind = .closeBrace) := by
  obtain ⟨body, tail, rfl, hbody, hstop⟩ := hrest.trees .brackets mode
  cases tail with
  | nil => exact ⟨body, false, [], rfl, hbody, by simp⟩
  | cons l tail =>
      by_cases hkind : l.kind = .closeBrace
      · exact ⟨body, false, l :: tail, rfl, hbody, by simp [hkind]⟩
      · have hclose : isCloseBracket l = true := by
          simpa [Scope.stops, hkind] using hstop l rfl
        obtain rfl := eq_start_of_isCloseBracket hclose
        exact ⟨body, true, tail, rfl, hbody, by simp⟩

/-- Whatever lexeme comes first, a row of trees goes on with it or ends in front of
it. -/
theorem canReadTrees_cons (hl : l.Proper) (hproper : ∀ m ∈ rest, m.Proper)
    (ih : ∀ ls, ls <:+ rest → Readable table ls) (scope : Scope) (mode : Mode) :
    CanReadTrees table scope mode (l :: rest) := by
  have hrest : Readable table rest := ih rest List.suffix_rfl
  -- A lexeme that ends the row leaves an empty row. Any other starts a tree, and the
  -- kind of the lexeme says which.
  cases hstop : scope.stops l with
  | true => exact ⟨[], l :: rest, rfl, by simp only [treesRead], by simpa using hstop⟩
  | false =>
      have htext : l.kind.isText = true →
          CanReadTrees table scope mode (l :: rest) := by
        intro hkind
        obtain ⟨c, rfl⟩ := hl.eq_start_of_isText hkind
        exact canReadTrees_text hproper hkind hstop ih
      have hcommand :
          (l.kind = .controlWord ∨ l.kind = .subscript ∨ l.kind = .superscript) →
            CanReadTrees table scope mode (l :: rest) := by
        intro hkind
        obtain ⟨args, missing, tail, hargs, hread⟩ :=
          hrest.args (argumentMode table mode l) (argumentSlots table l)
        have ht : (Tree.command l args missing).Reads table scope mode tail := by
          simp only [Tree.Reads]
          exact .inr ⟨hkind, hread⟩
        rw [hargs]
        exact (ih tail ⟨argsLexemes args, hargs.symm⟩).cons_tree ht
      cases hkind : l.kind with
      | comment | blank =>
          have ht : (Tree.gap l).Reads table scope mode rest := by
            simp [Tree.Reads, Lexeme.isGap, hkind]
          exact hrest.cons_tree ht
      | controlWord => exact hcommand (.inl hkind)
      | subscript => exact hcommand (.inr (.inl hkind))
      | superscript => exact hcommand (.inr (.inr hkind))
      | controlSymbol =>
          have ht : (Tree.plain l).Reads table scope mode rest := by
            simp only [Tree.plain, Tree.Reads]
            exact .inl ⟨hkind, trivial, trivial⟩
          exact hrest.cons_tree ht
      | openBrace =>
          obtain rfl := hl.eq_openBrace hkind
          obtain ⟨body, closed, tail, hbraces, hbody, hclosed⟩ :=
            exists_braces mode hproper hrest
          have ht : (Tree.group body closed).Reads table scope mode tail := by
            simp only [Tree.Reads]
            exact ⟨hbody, hclosed⟩
          have htail : tail <:+ rest := by
            rw [hbraces, ← List.append_assoc]
            exact List.suffix_append _ _
          rw [hbraces, ← List.append_assoc]
          exact (ih tail htail).cons_tree ht
      | closeBrace =>
          obtain rfl := hl.eq_closeBrace hkind
          have ht : Tree.stray.Reads table scope mode rest := by
            cases scope <;> simp [Scope.stops, hkind, Tree.Reads] at hstop ⊢
          exact hrest.cons_tree ht
      | letter | digit | other => exact htext (by simp [hkind, LexemeKind.isText])

/-- A command gets no argument from lexemes that it cannot use. -/
theorem canReadArgs_none {ls : List Lexeme}
    (h : ∀ l ∈ ahead ls, accepts l slots = false) :
    CanReadArgs table mode slots ls := by
  refine ⟨[], slots.any (· ≠ .optional), ls, rfl, ?_⟩
  simp only [argsRead]
  exact ⟨h, trivial⟩

section Argument

variable {before : List Lexeme} (hbefore : ∀ m ∈ before, m.isGap = true)

include hbefore

/-- Brackets can be read as an optional argument, up to where they are closed or the
source ends. -/
theorem canReadArgs_brackets (hslots : slots = .optional :: left)
    (ih : ∀ ls, ls <:+ rest → Readable table ls) :
    CanReadArgs table mode slots (before ++ Lexeme.start '[' :: rest) := by
  obtain ⟨body, closed, tail, hrest, hbody, hend⟩ :=
    exists_brackets mode (ih rest List.suffix_rfl)
  cases closed with
  | false =>
      refine ⟨[.mk before (.brackets false) body], left.any (· ≠ .optional), tail,
        by simp [hrest, Enclosure.opening], ?_⟩
      simp only [argsRead]
      refine ⟨hbefore, hbody, fun _ => ⟨trivial, hend rfl⟩, left, hslots, ?_, rfl⟩
      -- What ends the brackets too early is of no use for the command either.
      intro m hm
      cases tail with
      | nil => simp [ahead] at hm
      | cons l tail =>
          have hkind : l.kind = .closeBrace := hend rfl l rfl
          obtain rfl : l = m := by simpa [ahead, Lexeme.isGap, hkind] using hm
          exact accepts_closeBrace hkind left
  | true =>
      have htail : tail <:+ rest := by
        rw [hrest, ← List.append_assoc]
        exact List.suffix_append _ _
      obtain ⟨args, missing, tail, rfl, hargs⟩ := (ih tail htail).args mode left
      refine ⟨.mk before (.brackets true) body :: args, missing, tail,
        by simp [hrest, Enclosure.opening], ?_⟩
      simp only [argsRead]
      exact ⟨hbefore, hbody, by simp, left, hslots, hargs⟩

/-- Braces can be read as an argument, up to where they are closed or the source
ends. -/
theorem canReadArgs_braces (hproper : ∀ m ∈ rest, m.Proper)
    (hslots : skipOptional (Lexeme.start '{') slots = .mandatory :: left)
    (ih : ∀ ls, ls <:+ rest → Readable table ls) :
    CanReadArgs table mode slots (before ++ Lexeme.start '{' :: rest) := by
  obtain ⟨body, closed, tail, hrest, hbody, hend⟩ :=
    exists_braces mode hproper (ih rest List.suffix_rfl)
  cases closed with
  | false =>
      obtain rfl := hend rfl
      refine ⟨[.mk before (.braces false) body], left.any (· ≠ .optional), [],
        by simp [hrest, Enclosure.opening], ?_⟩
      simp only [argsRead]
      exact ⟨hbefore, hbody, fun _ => ⟨trivial, trivial⟩, left,
        hslots, by simp [ahead], rfl⟩
  | true =>
      have htail : tail <:+ rest := by
        rw [hrest, ← List.append_assoc]
        exact List.suffix_append _ _
      obtain ⟨args, missing, tail, rfl, hargs⟩ := (ih tail htail).args mode left
      refine ⟨.mk before (.braces true) body :: args, missing, tail,
        by simp [hrest, Enclosure.opening], ?_⟩
      simp only [argsRead]
      exact ⟨hbefore, hbody, by simp, left, hslots, hargs⟩

/-- An argument without marks in front of a rest that can be read. -/
theorem canReadArgs_bare {t : Tree} (hrest : Readable table rest)
    (ht : bareReads table mode slots left rest [t]) :
    CanReadArgs table mode slots (before ++ (t.lexemes ++ rest)) := by
  obtain ⟨args, missing, tail, rfl, hargs⟩ := hrest.args mode left
  refine ⟨.mk before .bare [t] :: args, missing, tail,
    by simp [Enclosure.opening, Enclosure.closing], ?_⟩
  simp only [argsRead]
  exact ⟨hbefore, left, ht, hargs⟩

/-- Whatever may start a mandatory argument can be read as one. -/
theorem canReadArgs_mandatory (hl : l.Proper) (hproper : ∀ m ∈ rest, m.Proper)
    (hgap : l.isGap = false) (hstarts : startsArgument l = true)
    (hslots : skipOptional l slots = .mandatory :: left)
    (ih : ∀ ls, ls <:+ rest → Readable table ls) :
    CanReadArgs table mode slots (before ++ l :: rest) := by
  have hrest : Readable table rest := ih rest List.suffix_rfl
  have hatom : l.kind.isText = true ∨ l.kind = .controlSymbol →
      CanReadArgs table mode slots (before ++ l :: rest) := by
    intro hkind
    have hlexemes : (atom l).lexemes = [l] :=
      lexemes_atom_of_proper hl (hkind.imp_right .inl)
    have ht : bareReads table mode slots left rest [atom l] := by
      simp only [bareReads]
      exact ⟨l, by rw [hlexemes]; rfl, .inr ⟨hslots, .inr ⟨hkind, rfl⟩⟩⟩
    simpa [hlexemes] using canReadArgs_bare hbefore hrest ht
  cases hkind : l.kind with
  | comment | blank => simp [Lexeme.isGap, hkind] at hgap
  | closeBrace | subscript | superscript => simp [startsArgument, hkind] at hstarts
  | openBrace =>
      obtain rfl := hl.eq_openBrace hkind
      exact canReadArgs_braces hbefore hproper hslots ih
  | controlWord =>
      obtain ⟨args, missing, tail, hargs, hread⟩ :=
        hrest.args (argumentMode table mode l) (argumentSlots table l)
      have ht : bareReads table mode slots left tail [.command l args missing] := by
        simp only [bareReads, Tree.Reads]
        exact ⟨l, rfl, .inr ⟨hslots, .inl ⟨hkind, .inr ⟨.inl hkind, hread⟩⟩⟩⟩
      have htail : Readable table tail := ih tail ⟨argsLexemes args, hargs.symm⟩
      simpa [hargs] using canReadArgs_bare hbefore htail ht
  | controlSymbol => exact hatom (.inr hkind)
  | letter | digit | other => exact hatom (.inl (by simp [hkind, LexemeKind.isText]))

/-- Whatever lexeme comes after the blanks and comments, a command uses it or gets no
more. -/
theorem canReadArgs_cons (hl : l.Proper) (hproper : ∀ m ∈ rest, m.Proper)
    (hgap : l.isGap = false) (ih : ∀ ls, ls <:+ rest → Readable table ls) :
    CanReadArgs table mode slots (before ++ l :: rest) := by
  cases haccepts : accepts l slots with
  | false =>
      refine canReadArgs_none fun m hm => ?_
      have hnone : before.find? (!·.isGap) = none := by simpa using hbefore
      obtain rfl : l = m := by simpa [ahead, List.find?_append, hnone, hgap] using hm
      exact haccepts
  | true =>
      cases hslots : skipOptional l slots with
      | nil => simp [accepts, hslots] at haccepts
      | cons slot left =>
          rw [accepts_of_skipOptional hslots] at haccepts
          cases slot with
          | optional =>
              -- Only an opening bracket is not skipped over an optional argument.
              obtain ⟨hoptional, hbracket⟩ := eq_of_skipOptional_optional hslots
              obtain rfl := eq_start_of_isOpenBracket hbracket
              exact canReadArgs_brackets hbefore hoptional ih
          | mandatory =>
              exact canReadArgs_mandatory hbefore hl hproper hgap haccepts hslots ih
          | delimiter =>
              have hkind : l.kind.isText = true ∨ l.kind = .controlSymbol ∨
                  l.kind = .controlWord := by
                cases hkind : l.kind <;> simp_all [isDelimiter, LexemeKind.isText]
              have hlexemes : (atom l).lexemes = [l] := lexemes_atom_of_proper hl hkind
              have ht : bareReads table mode slots left rest [atom l] := by
                simp only [bareReads]
                exact ⟨l, by rw [hlexemes]; rfl, .inl ⟨hslots, haccepts, rfl⟩⟩
              simpa [hlexemes] using canReadArgs_bare hbefore
                (ih rest List.suffix_rfl) ht

end Argument

end Step

/-- Blanks and comments, and then something else. -/
theorem exists_gaps (ls : List Lexeme) :
    ∃ before tail, ls = before ++ tail ∧ (∀ l ∈ before, l.isGap = true) ∧
      ∀ l ∈ tail.head?, l.isGap = false := by
  induction ls with
  | nil => exact ⟨[], [], rfl, by simp, by simp⟩
  | cons l ls ih =>
      cases hl : l.isGap with
      | false => exact ⟨[], l :: ls, rfl, by simp, by simpa using hl⟩
      | true =>
          obtain ⟨before, tail, rfl, hbefore, htail⟩ := ih
          exact ⟨l :: before, tail, rfl, List.forall_mem_cons.mpr ⟨hl, hbefore⟩, htail⟩

/-- **Everything can be read.** -/
theorem readable (ls : List Lexeme) (hproper : ∀ l ∈ ls, l.Proper) :
    Readable table ls := by
  induction hn : ls.length using Nat.strong_induction_on generalizing ls with
  | _ n ih =>
      -- Trees and arguments are read together: each of the two may end in front of
      -- the other.
      have hshorter : ∀ l rest, l :: rest <:+ ls → ∀ ms, ms <:+ rest →
          Readable table ms := by
        intro l rest hrest ms hms
        have hlength : ms.length < n := by
          have := hms.length_le
          have := hrest.length_le
          rw [List.length_cons] at this
          omega
        have hsuffix : ms <:+ ls := hms.trans ((List.suffix_cons l rest).trans hrest)
        exact ih ms.length hlength ms (fun m hm => hproper m (hsuffix.subset hm)) rfl
      constructor
      · intro scope mode
        cases ls with
        | nil => exact ⟨[], [], rfl, by simp only [treesRead], by simp⟩
        | cons l rest =>
            exact canReadTrees_cons (hproper l (by simp))
              (fun m hm => hproper m (List.mem_cons_of_mem l hm))
              (hshorter l rest List.suffix_rfl) scope mode
      · intro mode slots
        obtain ⟨before, tail, rfl, hbefore, htail⟩ := exists_gaps ls
        cases tail with
        | nil =>
            refine canReadArgs_none fun l hl => ?_
            have hnone : before.find? (!·.isGap) = none := by simpa using hbefore
            simp [ahead, hnone] at hl
        | cons l rest =>
            exact canReadArgs_cons hbefore (hproper l (by simp))
              (fun m hm => hproper m (by simp [hm])) (htail l rfl)
              (hshorter l rest (List.suffix_append _ _))

/-! ### The reader and the grammar -/

/-- **Every source is read by the grammar in some way.** -/
theorem exists_treesRead (ls : List Lexeme) (hproper : ∀ l ∈ ls, l.Proper) :
    ∃ ts, treesRead table .top .math [] ts ∧ treesLexemes ts = ls := by
  obtain ⟨ts, tail, rfl, hts, hstop⟩ := (readable ls hproper).trees .top .math
  cases tail with
  | nil => exact ⟨ts, hts, by simp⟩
  | cons l tail => simpa [Scope.stops] using hstop l rfl

/-- **What the reader does**: it makes of lexemes the one reading that they have. -/
theorem readTrees_eq_iff {ls : List Lexeme}
    (hproper : ∀ l ∈ ls, l.Proper) {ts : List Tree} :
    readTrees table ls = ts ↔
      treesRead table .top .math [] ts ∧ treesLexemes ts = ls := by
  constructor
  · rintro rfl
    obtain ⟨us, hus, rfl⟩ := exists_treesRead ls hproper
    rw [readTrees_treesLexemes hus]
    exact ⟨hus, rfl⟩
  · rintro ⟨hts, rfl⟩
    exact readTrees_treesLexemes hts

/-- The trees of a source are read as the grammar says. -/
theorem parse_reads (table : CommandTable) (source : String) :
    treesRead table .top .math [] (parse table source).trees :=
  ((readTrees_eq_iff (lex_proper source.toList)).mp rfl).1

theorem parse_lexemes (table : CommandTable) (source : String) :
    treesLexemes (parse table source).trees = lex source.toList :=
  ((readTrees_eq_iff (lex_proper source.toList)).mp rfl).2

/-- Nothing of a source is lost in its trees. -/
theorem parse_chars (table : CommandTable) (source : String) :
    treesChars (parse table source).trees = source.toList := by
  rw [← lexemesText_treesLexemes, parse_lexemes, lexemesText_lex]

end Formulary.Markup
