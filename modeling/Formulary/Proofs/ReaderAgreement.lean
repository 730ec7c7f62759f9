import Formulary.Proofs.DescentRuns

/-!
# The two readers agree

The reader by descent never faults: it finishes every source within its steps, at the
end mark, with the nodes and the warnings of the first reader, whatever it has read
before.

The induction is over the trees that the grammar gives to a source.  It carries the
number of lexemes still to come: with four steps for each of them every call has
enough, also the calls that look ahead in vain (`readNode_runs`, `readSequence_runs`,
`readSlots_runs`).
-/

namespace Formulary.Markup.Descent

variable {table : CommandTable} {L before rest : List Lexeme} {w : List Warning}
  {mode : Mode} {steps : Nat}

/-! ### Single nodes -/

/-- The tree `t` is read in front of it. -/
def TreeRuns (walk : Walk Node) (before : List Lexeme) (w : List Warning)
    (t : Tree) : Prop :=
  Runs walk (after before w) (t.node (offset before))
    (after (before ++ t.lexemes) (w ++ t.warnings (offset before)))

/-- A node that starts with a character is that character or the run that it
starts. -/
theorem readNode_runs_of_isText {c : Char} {n : Node} {s : Spot}
    (hL : L = before ++ Lexeme.start c :: rest)
    (htext : (Lexeme.startKind c).isText = true)
    (hnode : Runs (if mode = .text ∨ some (Lexeme.startKind c) = some .digit then do
          let (chars, stop) ← mergeRun (marksOf L) mode steps [c] (offset before + 1)
          return .text chars (some ⟨offset before, stop⟩)
        else return Mark.textNode ⟨some (Lexeme.start c), offset before⟩ : Walk Node)
      (after (before ++ [Lexeme.start c]) w) n s) :
    Runs (readNode table (marksOf L) (steps + 1) mode) (after before w) n s := by
  rw [readNode]
  refine (advance_runs hL).bind ?_
  have hstart : (Lexeme.start c).kind = Lexeme.startKind c := rfl
  rw [Mark.kind?_some, hstart]
  rcases LexemeKind.eq_of_isText htext with hkind | hkind | hkind <;>
    rw [hkind] at hnode ⊢ <;> exact hnode

theorem readNode_runs_text {scope : Scope} {chars : List Char}
    (hL : L = before ++ ((Tree.text chars).lexemes ++ rest))
    (hchars : readsText scope mode rest chars) (hsteps : chars.length ≤ steps) :
    TreeRuns (readNode table (marksOf L) (steps + 1) mode) before w (.text chars) := by
  obtain ⟨-, ⟨c, rfl, htext, hjoin⟩ | ⟨hne, hjoin, hend⟩⟩ := hchars
  · have halone : ¬ (mode = .text ∨ some (Lexeme.startKind c) = some .digit) := by
      cases mode with
      | math => simpa [Mode.joins] using hjoin
      | text => simp [Mode.joins, htext] at hjoin
    refine readNode_runs_of_isText hL htext ?_
    rw [if_neg halone]
    exact runs_pure_of_eq rfl (by simp [Tree.warnings])
  · obtain ⟨c, cs, rfl⟩ := List.exists_cons_of_ne_nil hne
    have hc := hjoin c (by simp)
    have hrun : mode = .text ∨ some (Lexeme.startKind c) = some .digit := by
      cases mode with
      | math => simpa [Mode.joins] using hc
      | text => exact .inl rfl
    have hpassed : L = (before ++ [Lexeme.start c]) ++ (charLexemes cs ++ rest) := by
      simpa using hL
    have hmerge := mergeRun_runs (w := w) hpassed
      (fun d hd => hjoin d (by simp [hd])) hend
      (Nat.lt_of_succ_le hsteps) [c]
    rw [offset_open] at hmerge
    refine readNode_runs_of_isText hL (Mode.isText_of_joins hc) ?_
    rw [if_pos hrun]
    refine hmerge.bind (runs_pure_of_eq ?_ ?_)
    · simp [Tree.node, offset_append, Lexeme.start]
    · simp [Tree.warnings]

theorem readNode_runs_gap {l : Lexeme} (hL : L = before ++ l :: rest)
    (hl : l.isGap = true) :
    TreeRuns (readNode table (marksOf L) (steps + 1) mode) before w (.gap l) := by
  have hkind : l.kind = .blank ∨ l.kind = .comment := by simpa [Lexeme.isGap] using hl
  rw [TreeRuns, readNode, Tree.node]
  refine (advance_runs hL).bind ?_
  rcases hkind with hkind | hkind
  · simp only [Mark.kind?_some, hkind, reduceCtorEq, if_false]
    exact runs_pure_of_eq rfl (by simp [Tree.warnings])
  · simp only [Mark.kind?_some, hkind, if_true]
    exact runs_pure_of_eq rfl (by simp [Tree.warnings])

/-- The reader reads a group whose content it reads, closed or not. -/
theorem readNode_runs_group {body : List Tree} {closed : Bool}
    (hL : L = before ++ ((Tree.group body closed).lexemes ++ rest))
    (hopen : closed = false → rest = [])
    (hbody : TreesRun table L steps .braces mode
      (before ++ [Lexeme.start '{']) w body) :
    TreeRuns (readNode table (marksOf L) (steps + 2) mode) before w
      (.group body closed) := by
  have hgroup : L = (before ++ [Lexeme.start '{']) ++
      (treesLexemes body ++
        (charLexemes (Enclosure.braces closed).closing ++ rest)) := by simpa using hL
  have hnext : L = before ++ Lexeme.start '{' ::
      (treesLexemes body ++
        (charLexemes (Enclosure.braces closed).closing ++ rest)) := by simpa using hL
  rw [TreeRuns, readNode]
  refine (advance_runs hnext).bind
    ((readGroup_runs hgroup hopen hbody).bind (runs_pure_of_eq ?_ rfl))
  rw [Tree.node, offset_append, Tree.lexemesText_lexemes, Tree.width]

/-- The reader reads a command whose arguments it reads. -/
theorem readNode_runs_command {scope : Scope} {head : Lexeme}
    {args : List Arg} {missing : Bool}
    (hL : L = before ++ ((Tree.command head args missing).lexemes ++ rest))
    (ht : (Tree.command head args missing).Reads table scope mode rest)
    (hargs : head.kind ≠ .controlSymbol →
      ArgsRun table L steps (argumentMode table mode head)
      ⟨some head, offset before⟩ (argumentSlots table head)
        (before ++ [head]) w args missing) :
    TreeRuns (readNode table (marksOf L) (steps + 2) mode) before w
      (.command head args missing) := by
  have hpassed : L = (before ++ [head]) ++ (argsLexemes args ++ rest) := by
    simpa using hL
  simp only [Tree.Reads] at ht
  rw [TreeRuns, readNode]
  refine (advance_runs (by simpa using hL)).bind ?_
  rcases ht with ⟨hkind, rfl, rfl⟩ | ⟨hkind, hread⟩
  · simp only [Mark.kind?_some, hkind]
    refine runs_pure_of_eq ?_ ?_
    · simp [command_node, Mark.plainNode, Mark.span, argsArguments, offset_append]
    · simp [Tree.warnings, argsWarnings]
  · replace hargs := hargs (by rcases hkind with hkind | hkind | hkind <;> simp [hkind])
    rcases hkind with hkind | hscript
    · simp only [Mark.kind?_some, hkind]
      simp only [argumentMode, argumentSlots, hkind, if_true] at hargs hread
      exact readCommand_runs hpassed hread hargs
    · rcases hscript with hkind | hkind <;>
      · simp only [Mark.kind?_some, hkind]
        simp only [argumentMode, argumentSlots, hkind, reduceCtorEq, if_false] at hargs
        exact readScript_runs hpassed hargs

/-! ### Nodes in a row -/

section Rows

variable {scope : Scope} {ts : List Tree} {t : Tree} {l : Lexeme}

theorem treesNodes_cons (before : List Lexeme) (t : Tree) (ts : List Tree) :
    treesNodes (offset before) (t :: ts) =
      t.node (offset before) :: treesNodes (offset (before ++ t.lexemes)) ts := by
  rw [treesNodes, offset_append, Tree.lexemesText_lexemes, Tree.width]

theorem treesWarnings_cons (before : List Lexeme) (t : Tree) (ts : List Tree) :
    treesWarnings (offset before) (t :: ts) =
      t.warnings (offset before) ++
        treesWarnings (offset (before ++ t.lexemes)) ts := by
  rw [treesWarnings, offset_append, Tree.lexemesText_lexemes, Tree.width]

/-- A row ends in front of what stops its scope, and at the end. -/
theorem readSequence_runs_nil (hL : L = before ++ rest)
    (hrest : ∀ l ∈ rest.head?, scope.stops l = true) :
    TreesRun table L (steps + 1) scope mode before w [] := by
  have hend : Runs (pure [] : Walk (List Node)) (after before w)
      (treesNodes (offset before) [])
      (after (before ++ treesLexemes []) (w ++ treesWarnings (offset before) [])) :=
    runs_pure_of_eq rfl (by simp [treesWarnings])
  rw [TreesRun, readSequence]
  refine (peek_runs hL).bind ?_
  cases rest with
  | nil => exact hend
  | cons l rest =>
      have hl := hrest l rfl
      cases scope with
      | top => simp [Scope.stops] at hl
      | braces =>
          have hkind : l.kind = .closeBrace := by simpa [Scope.stops] using hl
          simpa only [markAt, Mark.kind?_some, hkind, reduceCtorEq, if_false] using hend
      | brackets =>
          have hkind : l.kind = .closeBrace ∨ isCloseBracket l = true := by
            simpa [Scope.stops] using hl
          rcases hkind with hkind | hkind
          · simpa only [markAt, Mark.kind?_some, hkind, reduceCtorEq, if_false]
              using hend
          · obtain rfl := eq_start_of_isCloseBracket hkind
            exact hend

/-- A closing brace that closes nothing is read with a warning. -/
theorem readSequence_runs_stray (hL : L = before ++ Lexeme.start '}' :: rest)
    (hmore : TreesRun table L steps .top mode (before ++ Tree.stray.lexemes)
      (w ++ Tree.stray.warnings (offset before)) ts) :
    TreesRun table L (steps + 1) .top mode before w (.stray :: ts) := by
  rw [TreesRun, treesNodes_cons, treesWarnings_cons, readSequence]
  refine (peek_runs hL).bind ((advance_runs hL).bind ((warn_runs _ _ _ _).bind
    (hmore.bind (runs_pure_of_eq rfl ?_))))
  simp

/-- A node is read unless something stops the row. -/
theorem readSequence_runs_cons (hL : L = before ++ l :: rest)
    (hbrace : l.kind ≠ .closeBrace)
    (hbracket : scope = .brackets → isCloseBracket l = false)
    (ht : TreeRuns (readNode table (marksOf L) steps mode) before w t)
    (hmore : TreesRun table L steps scope mode (before ++ t.lexemes)
      (w ++ t.warnings (offset before)) ts) :
    TreesRun table L (steps + 1) scope mode before w (t :: ts) := by
  have hstays : ¬ (scope = .brackets ∧
      (markAt (offset before) (l :: rest)).lexeme?.any isCloseBracket) := by
    rintro ⟨hscope, hclose⟩
    exact Bool.false_ne_true ((hbracket hscope).symm.trans hclose)
  have hrow : Runs (do
        let n ← readNode table (marksOf L) steps mode
        let more ← readSequence table (marksOf L) steps scope mode
        return n :: more : Walk (List Node)) (after before w)
          (treesNodes (offset before) (t :: ts))
      (after (before ++ treesLexemes (t :: ts))
        (w ++ treesWarnings (offset before) (t :: ts))) := by
    rw [treesNodes_cons, treesWarnings_cons]
    refine ht.bind (hmore.bind (runs_pure_of_eq rfl ?_))
    simp
  rw [TreesRun, readSequence]
  refine (peek_runs hL).bind ?_
  have hmark : (markAt (offset before) (l :: rest)).kind? = some l.kind := rfl
  rw [hmark]
  cases hkind : l.kind with
  | closeBrace => exact absurd hkind hbrace
  | _ =>
      simp only
      rw [if_neg hstays]
      exact hrow

/-- The first lexeme of a tree stops no row that the tree stands in. -/
theorem exists_head_of_reads (ht : t.Reads table scope mode rest)
    (hstray : t ≠ .stray) :
    ∃ l ls, t.lexemes = l :: ls ∧ l.kind ≠ .closeBrace ∧
      (scope = .brackets → isCloseBracket l = false) := by
  cases t with
  | text chars =>
      simp only [Tree.Reads] at ht
      obtain ⟨c, cs, rfl, htext⟩ :
          ∃ c cs, chars = c :: cs ∧ (Lexeme.startKind c).isText = true := by
        obtain ⟨-, ⟨c, rfl, htext, -⟩ | ⟨hne, hjoin, -⟩⟩ := ht
        · exact ⟨c, [], rfl, htext⟩
        · obtain ⟨c, cs, rfl⟩ := List.exists_cons_of_ne_nil hne
          exact ⟨c, cs, rfl, Mode.isText_of_joins (hjoin c (by simp))⟩
      refine ⟨_, _, rfl, fun hkind => ?_,
        fun hscope => Bool.eq_false_iff.mpr fun hclose => ?_⟩
      · have hkind : Lexeme.startKind c = .closeBrace := hkind
        rw [hkind] at htext
        exact absurd htext (by decide)
      · exact ht.1 hscope (congrArg some (isCloseBracket_start hclose).1)
  | gap lexeme =>
      have hkind : lexeme.kind = .blank ∨ lexeme.kind = .comment := by
        simpa [Tree.Reads, Lexeme.isGap] using ht
      rcases hkind with hkind | hkind <;>
        exact ⟨_, _, rfl, by simp [hkind], by simp [isCloseBracket, hkind]⟩
  | stray => exact absurd rfl hstray
  | group body closed => exact ⟨_, _, rfl, by decide, fun _ => by decide⟩
  | command head args missing =>
      have hkind : head.kind = .controlSymbol ∨ head.kind = .controlWord ∨
          head.kind = .subscript ∨ head.kind = .superscript := by
        simp only [Tree.Reads] at ht
        exact ht.imp And.left And.left
      rcases hkind with hkind | hkind | hkind | hkind <;>
        exact ⟨_, _, rfl, by simp [hkind], by simp [isCloseBracket, hkind]⟩

end Rows

/-! ### The induction -/

/-- What follows the content of a group stops it. -/
theorem stops_braces {closed : Bool} (hopen : closed = false → rest = []) :
    ∀ l ∈ (charLexemes (Enclosure.braces closed).closing ++ rest).head?,
      Scope.braces.stops l = true := by
  cases closed with
  | true =>
      rintro l ⟨⟩
      rfl
  | false =>
      rw [hopen rfl]
      rintro l ⟨⟩

/-- What follows the content of brackets stops it. -/
theorem stops_brackets {closed : Bool}
    (hopen : closed = false → ∀ l ∈ rest.head?, l.kind = .closeBrace) :
    ∀ l ∈ (charLexemes (Enclosure.brackets closed).closing ++ rest).head?,
      Scope.brackets.stops l = true := by
  cases closed with
  | true =>
      rintro l ⟨⟩
      rfl
  | false =>
      intro l hl
      simp [Scope.stops, hopen rfl l hl]

theorem mem_ahead_gaps {gaps : List Lexeme} {l : Lexeme}
    (hgaps : ∀ g ∈ gaps, g.isGap = true) (hl : l.isGap = false) (ls : List Lexeme) :
    l ∈ ahead (gaps ++ l :: ls) := by
  rw [ahead_append_of_isGap hgaps (by rintro k ⟨⟩; exact hl)]
  rfl

-- The recursion is on trees, not on steps: a tree says which calls are made, and
-- each call of another function takes one of the four steps of the lexeme that was
-- passed before it.

mutual

/-- In front of a tree its node is read. -/
theorem readNode_runs :
    (t : Tree) → (scope : Scope) → (mode : Mode) → (before rest : List Lexeme) →
    (w : List Warning) → (steps : Nat) → L = before ++ (t.lexemes ++ rest) →
      t.Reads table scope mode rest → t ≠ .stray →
        4 * (t.lexemes ++ rest).length ≤ steps →
      TreeRuns (readNode table (marksOf L) steps mode) before w t
  | .text chars, scope, mode, before, rest, w, steps, hL, ht, hstray, hsteps => by
      -- A run has no more characters than steps, so it does not outlast the loop
      -- that merges it.
      obtain ⟨l, ls, hlexemes, -⟩ := exists_head_of_reads ht hstray
      have hlength : chars.length = ls.length + 1 := by
        simpa [charLexemes] using congrArg List.length hlexemes
      simp only [hlexemes, List.length_append, List.length_cons] at hsteps
      obtain ⟨steps, rfl⟩ : ∃ k, steps = k + 1 := ⟨steps - 1, by omega⟩
      simp only [Tree.Reads] at ht
      exact readNode_runs_text hL ht (by omega)
  | .gap lexeme, scope, mode, before, rest, w, steps, hL, ht, _, hsteps => by
      simp only [Tree.Reads] at ht
      simp only [Tree.lexemes, List.length_append, List.length_cons] at hsteps
      obtain ⟨steps, rfl⟩ : ∃ k, steps = k + 1 := ⟨steps - 1, by omega⟩
      exact readNode_runs_gap hL ht
  | .stray, _, _, _, _, _, _, _, _, hstray, _ => absurd rfl hstray
  | .group body closed, scope, mode, before, rest, w, steps, hL, ht, _, hsteps => by
      simp only [Tree.Reads] at ht
      obtain ⟨hbody, hopen⟩ := ht
      simp only [Tree.lexemes, List.length_append, List.length_cons] at hsteps
      obtain ⟨steps, rfl⟩ : ∃ k, steps = k + 2 := ⟨steps - 2, by omega⟩
      exact readNode_runs_group hL hopen
        (readSequence_runs body .braces mode _ _ w steps
          (by simpa using hL) hbody (stops_braces hopen)
          (by simp only [List.length_append]; omega))
  | .command head args missing, scope, mode, before, rest, w, steps,
      hL, ht, _, hsteps => by
      simp only [Tree.lexemes, List.length_append, List.length_cons] at hsteps
      obtain ⟨steps, rfl⟩ : ∃ k, steps = k + 2 := ⟨steps - 2, by omega⟩
      refine readNode_runs_command hL ht fun hkind => ?_
      simp only [Tree.Reads] at ht
      obtain ⟨hsymbol, -⟩ | ⟨-, hread⟩ := ht
      · exact absurd hsymbol hkind
      · exact readSlots_runs args _ _ missing _ _ rest w steps (by simpa using hL) hread
          (by simp only [List.length_append]; omega)

/-- In front of trees their nodes are read, up to what stops the row. -/
theorem readSequence_runs : (ts : List Tree) → (scope : Scope) → (mode : Mode) →
    (before rest : List Lexeme) → (w : List Warning) → (steps : Nat) →
    L = before ++ (treesLexemes ts ++ rest) → treesRead table scope mode rest ts →
    (∀ l ∈ rest.head?, scope.stops l = true) →
      4 * (treesLexemes ts ++ rest).length < steps →
      TreesRun table L steps scope mode before w ts
  | [], scope, mode, before, rest, w, steps, hL, _, hrest, hsteps => by
      obtain ⟨steps, rfl⟩ :=
        Nat.exists_eq_add_one_of_ne_zero (Nat.ne_of_gt (Nat.zero_lt_of_lt hsteps))
      exact readSequence_runs_nil hL hrest
  | t :: ts, scope, mode, before, rest, w, steps, hL, hts, hrest, hsteps => by
      obtain ⟨steps, rfl⟩ :=
        Nat.exists_eq_add_one_of_ne_zero (Nat.ne_of_gt (Nat.zero_lt_of_lt hsteps))
      simp only [treesRead] at hts
      obtain ⟨ht, hts⟩ := hts
      have hnext : L = before ++ (t.lexemes ++ (treesLexemes ts ++ rest)) := by
        simpa using hL
      have hmore : L = (before ++ t.lexemes) ++ (treesLexemes ts ++ rest) := by
        simpa using hL
      simp only [treesLexemes, List.length_append] at hsteps
      by_cases hstray : t = .stray
      · -- Only at the top is a closing brace part of the row.
        subst hstray
        simp only [Tree.Reads] at ht
        subst ht
        simp only [Tree.lexemes, List.length_cons] at hsteps
        exact readSequence_runs_stray hnext
          (readSequence_runs ts .top mode _ rest _ steps hmore hts hrest
            (by simp only [List.length_append]; omega))
      · obtain ⟨l, ls, hlexemes, hbrace, hbracket⟩ := exists_head_of_reads ht hstray
        have hhead : L = before ++ l :: (ls ++ (treesLexemes ts ++ rest)) := by
          simpa [hlexemes] using hL
        have hlength : t.lexemes.length = ls.length + 1 := congrArg List.length hlexemes
        refine readSequence_runs_cons hhead hbrace hbracket ?_ ?_
        · exact readNode_runs t scope mode before _ w steps hnext ht hstray
            (by simp only [List.length_append]; omega)
        · exact readSequence_runs ts scope mode _ rest _ steps hmore hts hrest
            (by simp only [List.length_append]; omega)

/-- In front of arguments they are read, and no others. -/
theorem readSlots_runs :
    (args : List Arg) → (mode : Mode) → (slots : List Slot) → (missing : Bool) →
    (m : Mark) → (before rest : List Lexeme) → (w : List Warning) → (steps : Nat) →
      L = before ++ (argsLexemes args ++ rest) →
    argsRead table mode slots rest missing args →
      4 * (argsLexemes args ++ rest).length + 2 ≤ steps →
      ArgsRun table L steps mode m slots before w args missing
  | [], mode, slots, missing, m, before, rest, w, steps, hL, h, hsteps => by
      simp only [argsRead] at h
      rw [argsLexemes, List.nil_append] at hL hsteps
      rw [h.2]
      exact argsRun_nil hL h.1 (by omega) m
  | .mk gaps (.brackets closed) body :: args, mode, slots, missing, m, before,
      rest, w, steps, hL, h,
      hsteps => by
      simp only [argsRead] at h
      obtain ⟨hgaps, hbody, hopen, left, rfl, hargs⟩ := h
      simp only [argsLexemes, Enclosure.opening, charLexemes_cons,
        charLexemes_nil, List.length_append, List.length_cons,
        List.length_nil] at hsteps
      obtain ⟨steps, rfl⟩ : ∃ k, steps = k + 1 := ⟨steps - 1, by omega⟩
      have hend : closed = false →
          ∀ l ∈ (argsLexemes args ++ rest).head?, l.kind = .closeBrace := by
        intro hclosed
        rw [(hopen hclosed).1]
        exact (hopen hclosed).2
      have hfirst : ArgRuns (readSlot table L (steps + 1) mode .optional) before w
          (.mk gaps (.brackets closed) body) := by
        refine readOptional_runs_brackets (by simpa using hL) hgaps hend (by omega) ?_
        exact readSequence_runs body .brackets mode _ _ w steps
          (by simpa [Enclosure.opening] using hL) hbody (stops_brackets hend)
          (by simp only [List.length_append]; omega)
      exact argsRun_cons hfirst
        (readSlots_runs args mode left missing m _ rest _ (steps + 1)
          (by simpa using hL) hargs (by simp only [List.length_append]; omega))
  | .mk gaps (.braces closed) body :: args, mode, slots, missing, m, before,
      rest, w, steps, hL, h,
      hsteps => by
      simp only [argsRead] at h
      obtain ⟨hgaps, hbody, hopen, left, hslots, hargs⟩ := h
      have hahead : L = before ++ (gaps ++ Lexeme.start '{' :: (treesLexemes body ++
          (charLexemes (Enclosure.braces closed).closing ++
            (argsLexemes args ++ rest)))) := by
        simpa [Enclosure.opening] using hL
      simp only [argsLexemes, Enclosure.opening, charLexemes_cons,
        charLexemes_nil, List.length_append, List.length_cons,
        List.length_nil] at hsteps
      obtain ⟨steps, rfl⟩ : ∃ k, steps = k + 2 := ⟨steps - 2, by omega⟩
      have hend : closed = false → argsLexemes args ++ rest = [] := by
        intro hclosed
        rw [(hopen hclosed).1, (hopen hclosed).2]
        rfl
      have hfirst : ArgRuns (readSlot table L (steps + 2) mode .mandatory) before w
          (.mk gaps (.braces closed) body) := by
        refine readArgument_runs_group (by simpa using hL) hgaps hend (by omega) ?_
        exact readSequence_runs body .braces mode _ _ w steps
          (by simpa using hahead) hbody (stops_braces hend)
            (by simp only [List.length_append]; omega)
      -- The slots in front that are passed over each look at the brace and move
      -- back.
      refine argsRun_of_skipOptional hahead
        (mem_ahead_gaps hgaps rfl _) hslots (by simp) ?_
        (argsRun_cons hfirst
          (readSlots_runs args mode left missing m _ rest _ (steps + 2)
            (by simpa using hL) hargs (by simp only [List.length_append]; omega)))
      simp only [List.length_append, List.length_cons]
      omega
  | .mk gaps .bare body :: args, mode, slots, missing, m, before, rest, w,
      steps, hL, h, hsteps => by
      simp only [argsRead] at h
      obtain ⟨hgaps, left, hbody, hargs⟩ := h
      have hbare : L = before ++
          (gaps ++ (treesLexemes body ++ (argsLexemes args ++ rest))) := by
        simpa [Enclosure.opening, Enclosure.closing] using hL
      simp only [argsLexemes, Enclosure.opening, Enclosure.closing,
        charLexemes_nil, List.length_append, List.length_nil] at hsteps
      obtain ⟨l, slot, hl, hslot, hskip, hfirst⟩ :=
        readBare_runs body mode slots left gaps before
          (argsLexemes args ++ rest) w steps hbare hgaps hbody
            (by simp only [List.length_append]; omega)
      refine argsRun_of_skipOptional hbare hl hskip hslot ?_ (argsRun_cons hfirst
        (readSlots_runs args mode left missing m _ rest _ steps
          (by simpa using hL) hargs
          (by simp only [List.length_append]; omega)))
      simp only [List.length_append]
      omega

/-- In front of an argument without marks it is read for the first slot that is not
passed over. -/
theorem readBare_runs : (body : List Tree) → (mode : Mode) → (slots left : List Slot) →
    (gaps before rest : List Lexeme) → (w : List Warning) → (steps : Nat) →
    L = before ++ (gaps ++ (treesLexemes body ++ rest)) → (∀ g ∈ gaps, g.isGap = true) →
    bareReads table mode slots left rest body →
    4 * (gaps ++ (treesLexemes body ++ rest)).length + 2 ≤ steps →
      ∃ l slot, l ∈ ahead (gaps ++ (treesLexemes body ++ rest)) ∧ slot ≠ .optional ∧
        skipOptional l slots = slot :: left ∧
          ArgRuns (readSlot table L steps mode slot) before w (.mk gaps .bare body)
  | [], mode, slots, left, gaps, before, rest, w, steps, _, _, h, _ => by
      simp only [bareReads] at h
  | [t], mode, slots, left, gaps, before, rest, w, steps, hL, hgaps, h, hsteps => by
      simp only [bareReads] at h
      obtain ⟨l, hl, ⟨hslots, hdelimiter, rfl⟩ |
          ⟨hslots, ⟨hword, ht⟩ | ⟨hkind, rfl⟩⟩⟩ := h
      · simp only [treesLexemes, List.append_nil, lexemes_atom hl,
          List.cons_append, List.nil_append, List.length_append,
          List.length_cons] at hL hsteps ⊢
        exact ⟨l, .delimiter,
          mem_ahead_gaps hgaps (not_isGap_of_isDelimiter hdelimiter) rest,
          by simp, hslots,
          readDelimiter_runs_atom hL hgaps hl hdelimiter (by omega)⟩
      · obtain ⟨own, lacks, rfl⟩ := ht.eq_command hl hword
        simp only [Tree.Reads] at ht
        rcases ht with ⟨hsymbol, -⟩ | ⟨-, hread⟩
        · simp [hword] at hsymbol
        · simp only [argumentMode, argumentSlots, hword, if_true] at hread
          simp only [treesLexemes, Tree.lexemes, List.append_nil,
            List.cons_append, List.length_append, List.length_cons] at hL hsteps ⊢
          obtain ⟨steps, rfl⟩ : ∃ k, steps = k + 2 := ⟨steps - 2, by omega⟩
          refine ⟨l, .mandatory,
            mem_ahead_gaps hgaps (by simp [Lexeme.isGap, hword]) _, by simp, hslots, ?_⟩
          refine readArgument_runs_command
            (by simpa [Enclosure.opening, Enclosure.closing] using hL) hgaps
            hword (by omega) hread ?_
          exact readSlots_runs own _ _ lacks _ _ rest w steps (by simpa using hL) hread
            (by simp only [List.length_append]; omega)
      · simp only [treesLexemes, List.append_nil, lexemes_atom hl,
          List.cons_append, List.nil_append, List.length_append,
          List.length_cons] at hL hsteps ⊢
        obtain ⟨steps, rfl⟩ : ∃ k, steps = k + 1 := ⟨steps - 1, by omega⟩
        exact ⟨l, .mandatory,
          mem_ahead_gaps hgaps (not_isGap_of_standing hkind) rest,
          by simp, hslots,
          readArgument_runs_atom hL hgaps hl hkind (by omega)⟩
  | _ :: _ :: _, mode, slots, left, gaps, before, rest, w, steps, _, _, h, _ => by
      simp only [bareReads] at h

end

/-! ### Whole sources -/

namespace Walker

/-- **The readers agree**: whatever a reader by descent has kept from before, it
reads a source as the first reader does, and stops at the end mark. -/
theorem read_eq (walker : Walker) (source : String) :
    walker.read source = .ok ((parse walker.table source).nodes,
      ⟨walker.table, marksOf (lex source.toList),
        ⟨(lex source.toList).length, (parse walker.table source).warnings⟩⟩) := by
  have hlexemes := parse_lexemes walker.table source
  have hrun : TreesRun walker.table (lex source.toList)
      (4 * (lex source.toList).length + 1) .top .math [] []
      (parse walker.table source).trees :=
    readSequence_runs _ .top .math [] [] [] _ (by simp [hlexemes])
      (parse_reads walker.table source)
      (by simp) (by simp [hlexemes])
  have hrun : (readSequence walker.table (marksOf (lex source.toList))
      (4 * (lex source.toList).length + 1)
      .top .math).run ⟨0, []⟩ = .ok ((parse walker.table source).nodes,
        ⟨(lex source.toList).length, (parse walker.table source).warnings⟩) := by
    rw [TreesRun, Runs, List.nil_append, hlexemes] at hrun
    exact hrun
  rw [read]
  simp only [hrun]
  rfl

/-- Sources one after the other are read without a fault, and the commands stay those
at the start. -/
theorem exists_readAll (walker : Walker) (sources : List String) :
    ∃ last, walker.readAll sources = .ok last ∧ last.table = walker.table := by
  induction sources generalizing walker with
  | nil => exact ⟨walker, rfl, rfl⟩
  | cons source sources ih =>
      obtain ⟨last, hlast, htable⟩ := ih ⟨walker.table, marksOf (lex source.toList),
        ⟨(lex source.toList).length, (parse walker.table source).warnings⟩⟩
      refine ⟨last, ?_, htable⟩
      rw [readAll, List.foldlM_cons, read_eq]
      exact hlast

end Walker

/-- What the first reader keeps after sources one after the other. -/
def readerAfter (r : Reader) (sources : List String) : Reader :=
  sources.foldl (fun r source => (r.read source).1) r

/-- Earlier sources leave the table of a reader as it is. -/
theorem table_readerAfter (r : Reader) (sources : List String) :
    (readerAfter r sources).table = r.table := by
  induction sources generalizing r with
  | nil => rfl
  | cons source sources ih => exact ih (r.read source).1

/-- There is one mark for each lexeme and one for the end. -/
theorem length_marksOf (ls : List Lexeme) : (marksOf ls).length = ls.length + 1 := by
  have hplaces (start : Nat) : (placeFrom start ls).length = ls.length := by
    induction ls generalizing start with
    | nil => rfl
    | cons l ls ih => rw [placeFrom, List.length_cons, ih, List.length_cons]
  simp [marksOf, hplaces]

theorem marksOf_end (ls : List Lexeme) :
    (marksOf ls)[ls.length]? = some ⟨none, (lexemesText ls).length⟩ :=
  marksOf_at (List.append_nil ls).symm

/-- **Every source is read to its end, as if it were the first.**  After any earlier
sources a reader by descent takes a source without a fault: it has steps enough,
looks at no mark that is not there, and never looks back from the start.  It stops at
the end mark, the last of all, with the nodes and the warnings that a reader gives
that has read nothing, and the reader that keeps a stack gives the same. -/
theorem Walker.read_finishes_afresh (table : CommandTable)
    (earlier : List String) (source : String) :
    ∃ used last nodes,
      (Walker.ofTable table).readAll earlier = .ok used ∧
      used.read source = .ok (nodes, last) ∧
      (Walker.ofTable table).read source = .ok (nodes, last) ∧
      last.marks = marksOf (lex source.toList) ∧
      last.marks[last.spot.cursor]? = some ⟨none, source.length⟩ ∧
      last.marks.length = last.spot.cursor + 1 ∧
      (readerAfter (Reader.ofTable table) earlier).read source =
        (⟨table, last.spot.cursor, last.spot.warnings⟩, nodes) := by
  obtain ⟨used, hused, htable⟩ := (Walker.ofTable table).exists_readAll earlier
  have htable : used.table = table := htable
  have hread := used.read_eq source
  rw [htable] at hread
  refine ⟨used, _, _, hused, hread,
    (Walker.ofTable table).read_eq source, rfl, ?_, ?_, ?_⟩
  · rw [marksOf_end, lexemesText_lex, String.length_toList]
  · exact length_marksOf _
  · have hreader : (readerAfter (Reader.ofTable table) earlier).table = table :=
      table_readerAfter _ earlier
    rw [Reader.read, hreader]
    rfl

end Formulary.Markup.Descent
