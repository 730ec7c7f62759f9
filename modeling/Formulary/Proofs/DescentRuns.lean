import Formulary.Proofs.Descent
import Formulary.Proofs.Orderly

/-!
# What the reader by descent does

Each function of the reader by descent is said over the grammar: in front of the
lexemes of a piece of markup it moves the cursor over exactly these lexemes, gives
the node and the warnings of the piece, and does not fault. A function that looks
ahead in vain moves back, so no statement has to speak of it.

* `Runs` is a walk that succeeds, and `after` a place between lexemes.
* `TreesRun`, `ArgRuns` and `ArgsRun` say that trees, an argument and arguments are
  read in front of them.
* The lemmas on groups, commands and arguments take what their parts do as
  hypotheses.  They need no induction, and each speaks of one function.
-/

namespace Formulary.Markup.Descent

/-! ### Walks that succeed -/

/-- A walk from `s` succeeds with the value `a` and ends at `s'`. -/
def Runs {α : Type} (walk : Walk α) (s : Spot) (a : α) (s' : Spot) : Prop :=
  walk.run s = .ok (a, s')

section Runs

variable {α β : Type} {s s' s'' : Spot}

theorem Runs.bind {walk : Walk α} {next : α → Walk β} {a : α} {b : β}
    (h : Runs walk s a s') (hnext : Runs (next a) s' b s'') :
    Runs (walk >>= next) s b s'' := by
  have h : walk.run s = .ok (a, s') := h
  rw [Runs, StateT.run_bind, h]
  exact hnext

theorem runs_pure (a : α) (s : Spot) : Runs (pure a) s a s := rfl

theorem runs_pure_of_eq {a b : α} (hvalue : a = b) (hspot : s = s') :
    Runs (pure a) s b s' := by
  rw [hvalue, hspot]
  exact runs_pure b s'

theorem runs_get (s : Spot) : Runs get s s s := rfl

theorem runs_moveBack (cursor : Nat) (s : Spot) :
    Runs (moveBack cursor) s () { s with cursor } := rfl

end Runs

/-! ### The cursor -/

/-- The offset after lexemes in a row. -/
def offset (before : List Lexeme) : Nat :=
  (lexemesText before).length

theorem offset_append (before ls : List Lexeme) :
    offset (before ++ ls) = offset before + (lexemesText ls).length := by
  simp [offset]

/-- The place between the lexemes `before` and the rest, with warnings. -/
def after (before : List Lexeme) (warnings : List Warning) : Spot :=
  ⟨before.length, warnings⟩

theorem warn_runs (complaint : Complaint) (m : Mark) (before : List Lexeme)
    (w : List Warning) :
    Runs (warn complaint m) (after before w) ()
      (after before (w ++ [⟨complaint, m.start, m.text⟩])) := rfl

/-- The mark in front of the lexemes still to come. -/
def markAt (start : Nat) : List Lexeme → Mark
  | [] => ⟨none, start⟩
  | l :: _ => ⟨some l, start⟩

variable {L before ls : List Lexeme} {w : List Warning} {l : Lexeme}

/-- The mark behind some lexemes is the first of those that are left, or the end. -/
theorem marks_at (start : Nat) (before ls : List Lexeme) :
    ((placeFrom start (before ++ ls)).map
      (fun t => (⟨some t.lexeme, t.start⟩ : Mark)) ++
      [⟨none, start + (lexemesText (before ++ ls)).length⟩])[before.length]? =
        some (markAt (start + offset before) ls) := by
  induction before generalizing start with
  | nil => cases ls <;> simp [placeFrom, markAt, offset]
  | cons b before ih =>
      have hstep := ih (start + b.text.length)
      simp only [List.cons_append, placeFrom, List.map_cons, List.length_cons,
        List.getElem?_cons_succ, lexemesText_cons, List.length_append]
      simpa [offset, Nat.add_assoc] using hstep

/-- The cursor behind some lexemes is at the first of those that are left, or at the
end. -/
theorem marksOf_at (hL : L = before ++ ls) :
    (marksOf L)[before.length]? = some (markAt (offset before) ls) := by
  have hmarks := marks_at 0 before ls
  rw [Nat.zero_add, Nat.zero_add] at hmarks
  rw [hL]
  exact hmarks

theorem peek_runs (hL : L = before ++ ls) :
    Runs (peek (marksOf L)) (after before w) (markAt (offset before) ls)
      (after before w) := by
  refine (runs_get _).bind ?_
  simp only [after, marksOf_at hL]
  exact runs_pure _ _

/-- The previous mark is the last lexeme that was passed. -/
theorem previous_runs (hL : L = (before ++ [l]) ++ ls) :
    Runs (previous (marksOf L)) (after (before ++ [l]) w) ⟨some l, offset before⟩
      (after (before ++ [l]) w) := by
  have hmark : (marksOf L)[(before ++ [l]).length - 1]? =
      some ⟨some l, offset before⟩ := by
    have hL' : L = before ++ l :: ls := by simpa using hL
    rw [List.length_append, List.length_singleton, Nat.add_sub_cancel]
    exact marksOf_at hL'
  refine (runs_get _).bind ?_
  simp only [after, hmark]
  rw [if_neg (by simp)]
  exact runs_pure _ _

/-- Advancing passes one lexeme and returns its mark. -/
theorem advance_runs (hL : L = before ++ l :: ls) :
    Runs (advance (marksOf L)) (after before w) ⟨some l, offset before⟩
      (after (before ++ [l]) w) := by
  refine (peek_runs hL).bind ?_
  have hmove : Runs (modify fun s : Spot =>
    { s with cursor := s.cursor + 1 } : Walk PUnit)
      (after before w) () (after (before ++ [l]) w) := by
    simp [Runs, after]
    rfl
  exact hmove.bind (previous_runs (by simpa using hL))

/-- The last lexeme that was passed ends where the walk stands. -/
theorem exists_previous_runs (hL : L = before ++ ls) (hbefore : before ≠ []) :
    ∃ m, Runs (previous (marksOf L)) (after before w) m (after before w) ∧
      m.stop = offset before := by
  obtain ⟨init, l, rfl⟩ : ∃ init l, before = init ++ [l] :=
    ⟨_, _, (List.dropLast_append_getLast hbefore).symm⟩
  refine ⟨_, previous_runs hL, ?_⟩
  rw [offset_append]
  simp [Mark.stop, Mark.text]

/-! ### Loops over tokens -/

/-- Layout is skipped up to the first lexeme that is something else. -/
theorem skipGaps_runs {gaps : List Lexeme} (hL : L = before ++ (gaps ++ ls))
    (hgaps : ∀ l ∈ gaps, l.isGap = true)
    (hls : ∀ l ∈ ls.head?, l.isGap = false) {steps : Nat}
    (hsteps : gaps.length < steps) :
    Runs (skipGaps (marksOf L) steps) (after before w) ()
      (after (before ++ gaps) w) := by
  induction gaps generalizing before steps with
  | nil =>
      obtain ⟨steps, rfl⟩ := Nat.exists_eq_add_one_of_ne_zero (Nat.ne_of_gt hsteps)
      have hgap : (markAt (offset before) ls).isGap = false := by
        cases ls with
        | nil => rfl
        | cons l ls => exact hls l rfl
      refine (peek_runs hL).bind ?_
      simp only [List.nil_append, hgap]
      rw [List.append_nil]
      exact runs_pure _ _
  | cons g gaps ih =>
      obtain ⟨steps, rfl⟩ :=
        Nat.exists_eq_add_one_of_ne_zero (Nat.ne_of_gt (Nat.zero_lt_of_lt hsteps))
      have hgap : (markAt (offset before) (g :: (gaps ++ ls))).isGap = true :=
        hgaps g (by simp)
      refine (peek_runs hL).bind ?_
      simp only [List.cons_append, hgap]
      refine (advance_runs hL).bind ?_
      have hL' : L = (before ++ [g]) ++ (gaps ++ ls) := by simpa using hL
      simpa using ih hL' (fun l hl => hgaps l (by simp [hl]))
        (Nat.lt_of_succ_lt_succ hsteps)

/-- A run of characters that join is merged up to the first lexeme that does not
join. -/
theorem mergeRun_runs {mode : Mode} {cs : List Char}
    (hL : L = before ++ (charLexemes cs ++ ls))
    (hcs : ∀ c ∈ cs, mode.joins (Lexeme.startKind c) = true)
    (hls : ∀ l ∈ ls.head?, mode.joins l.kind = false) {steps : Nat}
    (hsteps : cs.length < steps) (chars : List Char) :
    Runs (mergeRun (marksOf L) mode steps chars (offset before)) (after before w)
      (chars ++ cs, offset (before ++ charLexemes cs))
        (after (before ++ charLexemes cs) w) := by
  induction cs generalizing before steps chars with
  | nil =>
      obtain ⟨steps, rfl⟩ := Nat.exists_eq_add_one_of_ne_zero (Nat.ne_of_gt hsteps)
      have hjoin : (markAt (offset before) ls).kind?.any mode.joins = false := by
        cases ls with
        | nil => rfl
        | cons l ls => exact hls l rfl
      refine (peek_runs hL).bind ?_
      simp only [charLexemes_nil, List.nil_append, hjoin]
      rw [List.append_nil, List.append_nil]
      exact runs_pure _ _
  | cons c cs ih =>
      obtain ⟨steps, rfl⟩ :=
        Nat.exists_eq_add_one_of_ne_zero (Nat.ne_of_gt (Nat.zero_lt_of_lt hsteps))
      have hjoin : (markAt (offset before)
          (Lexeme.start c :: (charLexemes cs ++ ls))).kind?.any
          mode.joins = true := hcs c (by simp)
      refine (peek_runs hL).bind ?_
      simp only [charLexemes_cons, List.cons_append, hjoin]
      refine (advance_runs hL).bind ?_
      have hL' : L = (before ++ [Lexeme.start c]) ++ (charLexemes cs ++ ls) := by
        simpa using hL
      have hmore := ih hL' (fun d hd => hcs d (by simp [hd]))
        (by simpa using hsteps) (chars ++ [c])
      rw [List.append_assoc, List.append_assoc] at hmore
      simpa [offset_append, Mark.text, Mark.stop, Lexeme.start] using hmore

/-! ### Arguments that are not there -/

section Missing

variable {table : CommandTable} {mode : Mode} {steps : Nat}

/-- A look over blanks and comments, at the mark that comes then. -/
theorem exists_lookahead (hL : L = before ++ ls) (hsteps : ls.length < steps) :
    ∃ gaps tail, ls = gaps ++ tail ∧ tail.head? = ahead ls ∧
      ∀ w, Runs (skipGaps (marksOf L) steps) (after before w) ()
        (after (before ++ gaps) w) ∧
        Runs (peek (marksOf L)) (after (before ++ gaps) w)
          (markAt (offset (before ++ gaps)) tail)
          (after (before ++ gaps) w) := by
  obtain ⟨gaps, tail, rfl, hgaps, htail⟩ := exists_gaps ls
  rw [List.length_append] at hsteps
  refine ⟨gaps, tail, rfl, (ahead_append_of_isGap hgaps htail).symm, fun w => ⟨?_, ?_⟩⟩
  · exact skipGaps_runs hL hgaps htail (by omega)
  · exact peek_runs (by simpa using hL)

/-- Without a bracket ahead there is no optional argument, and the cursor goes
back. -/
theorem readOptional_runs_none (hL : L = before ++ ls)
    (hls : ∀ l ∈ ahead ls, isOpenBracket l = false) (hsteps : ls.length + 1 < steps) :
    Runs (readOptional table (marksOf L) steps mode) (after before w) none
      (after before w) := by
  obtain ⟨steps, rfl⟩ :=
    Nat.exists_eq_add_one_of_ne_zero (Nat.ne_of_gt (Nat.zero_lt_of_lt hsteps))
  obtain ⟨gaps, tail, rfl, hahead, hlook⟩ :=
    exists_lookahead hL (Nat.lt_of_succ_lt_succ hsteps)
  have hbracket : (markAt (offset (before ++ gaps)) tail).lexeme?.any isOpenBracket =
      false := by
    cases tail with
    | nil => rfl
    | cons l tail => exact hls l hahead.symm
  rw [readOptional]
  refine (runs_get _).bind ((hlook w).1.bind ((hlook w).2.bind ?_))
  rw [if_neg (by simp [hbracket])]
  exact (runs_moveBack _ _).bind (runs_pure _ _)

/-- Without a start of an argument ahead there is none, and the cursor goes back. -/
theorem readArgument_runs_none (hL : L = before ++ ls)
    (hls : ∀ l ∈ ahead ls, startsArgument l = false) (hsteps : ls.length + 1 < steps) :
    Runs (readArgument table (marksOf L) steps mode) (after before w) none
      (after before w) := by
  obtain ⟨steps, rfl⟩ :=
    Nat.exists_eq_add_one_of_ne_zero (Nat.ne_of_gt (Nat.zero_lt_of_lt hsteps))
  obtain ⟨gaps, tail, rfl, hahead, hlook⟩ :=
    exists_lookahead hL (Nat.lt_of_succ_lt_succ hsteps)
  rw [readArgument]
  refine (runs_get _).bind ((hlook w).1.bind ((hlook w).2.bind ?_))
  have hback : Runs (do
      moveBack (after before w).cursor; return none : Walk (Option Argument))
      (after (before ++ gaps) w) none (after before w) :=
    (runs_moveBack _ _).bind (runs_pure _ _)
  cases tail with
  | nil => exact hback
  | cons l tail =>
      have hl := hls l hahead.symm
      simp only [startsArgument, Bool.not_eq_false', Bool.or_eq_true,
        decide_eq_true_eq] at hl
      rcases hl with (hl | hl) | hl <;>
        simpa only [markAt, Mark.kind?, Option.map_some, hl] using hback

/-- Without a delimiter ahead none is taken, and the cursor goes back. -/
theorem readDelimiter_runs_none (hL : L = before ++ ls)
    (hls : ∀ l ∈ ahead ls, isDelimiter l = false) (hsteps : ls.length < steps) :
    Runs (readDelimiter (marksOf L) steps) (after before w) none (after before w) := by
  obtain ⟨gaps, tail, rfl, hahead, hlook⟩ := exists_lookahead hL hsteps
  rw [readDelimiter]
  refine (runs_get _).bind ((hlook w).1.bind ((hlook w).2.bind ?_))
  have hback : Runs (do
      moveBack (after before w).cursor; return none : Walk (Option Argument))
      (after (before ++ gaps) w) none (after before w) :=
    (runs_moveBack _ _).bind (runs_pure _ _)
  cases tail with
  | nil => exact hback
  | cons l tail =>
      have hl := hls l hahead.symm
      cases hkind : l.kind <;> simp [isDelimiter, hkind] at hl <;>
        simpa only [markAt, Mark.kind?, Option.map_some, hkind] using hback

end Missing

/-! ### Groups and commands -/

section Commands

variable {table : CommandTable} {mode : Mode} {steps : Nat} {rest : List Lexeme}

theorem offset_open (before : List Lexeme) (c : Char) :
    offset (before ++ [Lexeme.start c]) = offset before + 1 := by
  simp [offset_append, Lexeme.start]

/-- The trees `ts` are read in front of them. -/
def TreesRun (table : CommandTable) (L : List Lexeme) (steps : Nat)
    (scope : Scope) (mode : Mode) (before : List Lexeme) (w : List Warning)
    (ts : List Tree) : Prop :=
  Runs (readSequence table (marksOf L) steps scope mode) (after before w)
    (treesNodes (offset before) ts)
    (after (before ++ treesLexemes ts) (w ++ treesWarnings (offset before) ts))

/-- A group whose content can be read. -/
theorem readGroup_runs {body : List Tree} {closed : Bool}
    (hL : L = (before ++ [Lexeme.start '{']) ++
      (treesLexemes body ++ (charLexemes (Enclosure.braces closed).closing ++ rest)))
    (hopen : closed = false → rest = [])
    (hbody : TreesRun table L steps .braces mode
      (before ++ [Lexeme.start '{']) w body) :
    Runs (readGroup table (marksOf L) (steps + 1)
      ⟨some (Lexeme.start '{'), offset before⟩ mode)
      (after (before ++ [Lexeme.start '{']) w)
      (treesNodes (offset before + 1) body,
        offset (before ++ (Tree.group body closed).lexemes))
      (after (before ++ (Tree.group body closed).lexemes)
        (w ++ (Tree.group body closed).warnings (offset before))) := by
  rw [TreesRun, offset_open] at hbody
  rw [readGroup]
  refine hbody.bind ?_
  cases closed with
  | true =>
      have hclose : L = ((before ++ [Lexeme.start '{']) ++ treesLexemes body) ++
          Lexeme.start '}' :: rest := by simpa [Enclosure.closing] using hL
      have hpassed : L = (((before ++ [Lexeme.start '{']) ++ treesLexemes body) ++
          [Lexeme.start '}']) ++ rest := by simpa [Enclosure.closing] using hL
      refine (peek_runs hclose).bind ?_
      rw [if_pos (by rfl)]
      refine (advance_runs hclose).bind
        ((previous_runs hpassed).bind (runs_pure_of_eq ?_ ?_))
      · simp [Mark.stop, Mark.text, offset_append, Enclosure.closing, Nat.add_assoc]
      · simp [Tree.warnings, Enclosure.closing]
  | false =>
      obtain rfl := hopen rfl
      have hend : L = ((before ++ [Lexeme.start '{']) ++ treesLexemes body) ++ [] := by
        simpa [Enclosure.closing] using hL
      refine (peek_runs hend).bind ?_
      rw [if_neg (by simp [markAt, Mark.kind?])]
      refine (warn_runs _ _ _ _).bind ((peek_runs hend).bind (runs_pure_of_eq ?_ ?_))
      · simp [markAt, offset_append, Enclosure.closing]
      · simp [Tree.warnings, Enclosure.closing, Mark.text, Lexeme.start]

/-- The reading of the arguments that slots ask for. -/
abbrev readArgs (table : CommandTable) (L : List Lexeme) (steps : Nat)
    (mode : Mode) (head : Mark) (slots : List Slot) : Walk (List Argument) :=
  readSlots (readOptional table (marksOf L) steps mode)
    (readDelimiter (marksOf L) steps)
    (readArgument table (marksOf L) steps mode) head slots

/-- The arguments `args` are read in front of them, with a warning if one is
missing. -/
def ArgsRun (table : CommandTable) (L : List Lexeme) (steps : Nat)
    (mode : Mode) (head : Mark) (slots : List Slot) (before : List Lexeme)
    (w : List Warning) (args : List Arg) (missing : Bool) :
    Prop :=
  Runs (readArgs table L steps mode head slots) (after before w)
    (argsArguments (offset before) args)
    (after (before ++ argsLexemes args) (w ++ (argsWarnings (offset before) args ++
      if missing then [⟨.missingArgument, head.start, head.text⟩] else [])))

variable {head : Lexeme} {args : List Arg} {missing : Bool}

/-- The node of a command by the lexemes in front of it. -/
theorem command_node (before : List Lexeme) (head : Lexeme)
    (args : List Arg) (missing : Bool) :
    (Tree.command head args missing).node (offset before) =
      .command head.name (argsArguments (offset (before ++ [head])) args)
        (some ⟨offset before,
          offset (before ++ (Tree.command head args missing).lexemes)⟩) := by
  rw [Tree.node, offset_append, offset_append, Tree.lexemesText_lexemes, Tree.width]
  simp

/-- The warnings about a command by the lexemes in front of it: those about its
arguments come first. -/
theorem command_warnings (before : List Lexeme) (head : Lexeme)
    (args : List Arg) (missing : Bool) :
    (Tree.command head args missing).warnings (offset before) =
      argsWarnings (offset (before ++ [head])) args ++
        if missing then [⟨.missingArgument, offset before, head.text⟩] else [] := by
  rw [Tree.warnings, offset_append]
  simp

/-- A control word whose arguments can be read. -/
theorem readCommand_runs (hL : L = (before ++ [head]) ++ (argsLexemes args ++ rest))
    (hread : argsRead table (if table.isTextual head.name then .text else mode)
      (table.slots head.name) rest missing args)
    (hargs : ArgsRun table L steps (if table.isTextual head.name then .text else mode)
      ⟨some head, offset before⟩ (table.slots head.name)
        (before ++ [head]) w args missing) :
    Runs (readCommand table (marksOf L) (steps + 1) ⟨some head, offset before⟩ mode)
      (after (before ++ [head]) w)
        ((Tree.command head args missing).node (offset before))
      (after (before ++ (Tree.command head args missing).lexemes)
        (w ++ (Tree.command head args missing).warnings (offset before))) := by
  have hlexemes : before ++ (Tree.command head args missing).lexemes =
      (before ++ [head]) ++ argsLexemes args := by simp
  rw [readCommand, command_node, command_warnings, hlexemes, Mark.name_some]
  by_cases hslots : table.slots head.name = []
  · -- Without slots there are no arguments, and none is missing.
    rw [hslots] at hread
    obtain rfl : args = [] := List.eq_nil_of_length_eq_zero
      (Nat.le_zero.mp (Variable.length_le_of_argsRead hread))
    simp only [argsRead] at hread
    obtain ⟨-, rfl⟩ := hread
    rw [if_pos hslots]
    refine runs_pure_of_eq ?_ ?_
    · simp [Mark.plainNode, Mark.span, argsArguments, offset_append]
    · simp [argsWarnings]
  · rw [if_neg hslots]
    have hpassed : L = ((before ++ [head]) ++ argsLexemes args) ++ rest := by
      simpa using hL
    obtain ⟨last, hlast, hstop⟩ := exists_previous_runs hpassed (by simp)
    refine hargs.bind (hlast.bind (runs_pure_of_eq ?_ rfl))
    rw [hstop]

/-- A script mark is read like a command with one mandatory argument. -/
theorem readScript_eq (m : Mark) :
    readScript table (marksOf L) (steps + 1) m = (do
      let args ← readArgs table L steps .math m [.mandatory]
      let last ← previous (marksOf L)
      return .command m.name args (some ⟨m.start, last.stop⟩)) := by
  rw [readScript, readArgs, readSlots]
  · simp only [bind_assoc, reduceCtorEq, if_false]
    refine congrArg (readArgument table (marksOf L) steps .math >>= ·) ?_
    funext arg
    cases arg with
    | none => simp
    | some arg => simp [readSlots]
  · simp

/-- A script mark whose argument can be read. -/
theorem readScript_runs (hL : L = (before ++ [head]) ++ (argsLexemes args ++ rest))
    (hargs : ArgsRun table L steps .math ⟨some head, offset before⟩ [.mandatory]
      (before ++ [head]) w
      args missing) :
    Runs (readScript table (marksOf L) (steps + 1) ⟨some head, offset before⟩)
      (after (before ++ [head]) w)
        ((Tree.command head args missing).node (offset before))
      (after (before ++ (Tree.command head args missing).lexemes)
        (w ++ (Tree.command head args missing).warnings (offset before))) := by
  have hlexemes : before ++ (Tree.command head args missing).lexemes =
      (before ++ [head]) ++ argsLexemes args := by simp
  have hpassed : L = ((before ++ [head]) ++ argsLexemes args) ++ rest := by
    simpa using hL
  rw [readScript_eq, command_node, command_warnings, hlexemes]
  obtain ⟨last, hlast, hstop⟩ := exists_previous_runs hpassed (by simp)
  refine hargs.bind (hlast.bind (runs_pure_of_eq ?_ rfl))
  rw [hstop]
  rfl

/-! ### The arguments of a command -/

/-- No argument is read where the next lexeme cannot start one. -/
theorem argsRun_nil {slots : List Slot} (hL : L = before ++ rest)
    (hrest : ∀ l ∈ ahead rest, accepts l slots = false)
    (hsteps : rest.length + 1 < steps) (m : Mark) :
    ArgsRun table L steps mode m slots before w [] (slots.any (· ≠ .optional)) := by
  rw [ArgsRun, argsLexemes, List.append_nil, argsWarnings,
    List.nil_append, argsArguments]
  induction slots with
  | nil => exact runs_pure_of_eq rfl (by simp)
  | cons slot slots ih =>
      have hmissing : Runs
          (do warn .missingArgument m; return [] : Walk (List Argument))
          (after before w) []
            (after before (w ++ [⟨.missingArgument, m.start, m.text⟩])) :=
        (warn_runs _ _ _ _).bind (runs_pure _ _)
      cases slot with
      | optional =>
          have hnone : ∀ l ∈ ahead rest, isOpenBracket l = false ∧
              accepts l slots = false := by
            intro l hl
            have haccepts := hrest l hl
            cases hbracket : isOpenBracket l with
            | true => simp [accepts, skipOptional, hbracket] at haccepts
            | false => exact ⟨rfl, by
                simpa [accepts, skipOptional, hbracket] using haccepts⟩
          refine (readOptional_runs_none hL (fun l hl => (hnone l hl).1) hsteps).bind ?_
          refine (ih fun l hl => (hnone l hl).2).bind (runs_pure_of_eq rfl ?_)
          simp
      | delimiter =>
          exact (readDelimiter_runs_none hL (fun l hl => hrest l hl) (by omega)).bind
            hmissing
      | mandatory =>
          exact (readArgument_runs_none hL (fun l hl => hrest l hl) hsteps).bind
            hmissing

/-- The reading of the argument that a slot asks for. -/
abbrev readSlot (table : CommandTable) (L : List Lexeme) (steps : Nat) (mode : Mode) :
    Slot → Walk (Option Argument)
  | .optional => readOptional table (marksOf L) steps mode
  | .delimiter => readDelimiter (marksOf L) steps
  | .mandatory => readArgument table (marksOf L) steps mode

/-- The argument `arg` is read in front of it. -/
def ArgRuns (walk : Walk (Option Argument)) (before : List Lexeme) (w : List Warning)
    (arg : Arg) : Prop :=
  ∃ a, argsArguments (offset before) [arg] = [a] ∧
    Runs walk (after before w) (some a)
      (after (before ++ argsLexemes [arg]) (w ++ argsWarnings (offset before) [arg]))

/-- Arguments are read one by one, each from where the one before it ends. -/
theorem argsRun_cons {slot : Slot} {left : List Slot} {m : Mark} {arg : Arg}
    (harg : ArgRuns (readSlot table L steps mode slot) before w arg)
    (hmore : ArgsRun table L steps mode m left (before ++ argsLexemes [arg])
      (w ++ argsWarnings (offset before) [arg]) args missing) :
    ArgsRun table L steps mode m (slot :: left) before w (arg :: args) missing := by
  obtain ⟨a, ha, harg⟩ := harg
  have hoffset : offset (before ++ argsLexemes [arg]) =
      offset before + (argsChars [arg]).length := by
    rw [offset_append, lexemesText_argsLexemes]
  have harguments : argsArguments (offset before) (arg :: args) =
      a :: argsArguments (offset (before ++ argsLexemes [arg])) args := by
    cases arg
    rw [hoffset, argsArguments]
    exact congrArg (· ++ argsArguments _ args) ha
  have hwarnings : argsWarnings (offset before) (arg :: args) =
      argsWarnings (offset before) [arg] ++
        argsWarnings (offset (before ++ argsLexemes [arg])) args := by
    rw [hoffset]
    cases arg
    simp [argsWarnings]
  have hlexemes : argsLexemes (arg :: args) =
      argsLexemes [arg] ++ argsLexemes args := by
    cases arg
    simp
  rw [ArgsRun] at hmore ⊢
  rw [harguments, hwarnings, hlexemes]
  simp only [List.append_assoc] at hmore ⊢
  cases slot with
  | optional => exact harg.bind (hmore.bind (runs_pure _ _))
  | delimiter => exact harg.bind (hmore.bind (runs_pure _ _))
  | mandatory => exact harg.bind (hmore.bind (runs_pure _ _))

/-- Optional arguments in front that the next lexeme does not open are passed
over. -/
theorem argsRun_of_skipOptional {slots left : List Slot} {slot : Slot}
    {m : Mark} {ls : List Lexeme} (hL : L = before ++ ls) (hl : l ∈ ahead ls)
    (hskip : skipOptional l slots = slot :: left) (hslot : slot ≠ .optional)
    (hsteps : ls.length + 1 < steps)
    (h : ArgsRun table L steps mode m (slot :: left) before w args missing) :
    ArgsRun table L steps mode m slots before w args missing := by
  fun_induction skipOptional l slots with
  | case1 => cases hskip
  | case2 => exact absurd (List.cons.inj hskip).1.symm hslot
  | case3 slots hbracket ih =>
      have hnone : ∀ k ∈ ahead ls, isOpenBracket k = false := by
        intro k hk
        obtain rfl := Option.mem_unique hk hl
        simpa using hbracket
      exact (readOptional_runs_none hL hnone hsteps).bind
        ((ih hskip).bind (runs_pure _ _))
  | case4 slots => exact hskip ▸ h

/-! ### Arguments that are there -/

variable {gaps : List Lexeme} {body : List Tree} {closed : Bool}

/-- The node of a lexeme that is an argument by itself. -/
theorem atom_node (l : Lexeme) (start : Nat) :
    (atom l).node start = if l.kind = .controlWord ∨ l.kind = .controlSymbol
      then Mark.plainNode ⟨some l, start⟩ else Mark.textNode ⟨some l, start⟩ := by
  rw [atom]
  split_ifs
  · simp [Tree.plain, Tree.node, Tree.width, Tree.chars, argsChars, argsArguments,
      Mark.plainNode, Mark.span]
  · rfl

/-- There is nothing to warn about in a single lexeme. -/
theorem atom_warnings (l : Lexeme) (start : Nat) : (atom l).warnings start = [] := by
  rw [atom]
  split_ifs <;> simp [Tree.plain, Tree.warnings, argsWarnings]

/-- A lexeme that is taken as it stands is the argument that its node says. -/
theorem argRuns_atom {walk : Walk (Option Argument)} (hl : l ∈ (atom l).lexemes.head?)
    (hwalk : Runs walk (after before w)
      (some (.mk "" "" [(atom l).node (offset (before ++ gaps))]))
      (after ((before ++ gaps) ++ [l]) w)) :
    ArgRuns walk before w (.mk gaps .bare [atom l]) := by
  refine ⟨_, rfl, ?_⟩
  simpa [argsLexemes, argsWarnings, lexemes_atom hl, treesNodes,
    treesWarnings, atom_warnings, Enclosure.marks, Enclosure.opening, Enclosure.closing,
    Enclosure.warnings, offset_append] using hwalk

/-- A lexeme that is an argument by itself is passed. -/
theorem take_runs (hL : L = before ++ l :: rest) (arg : Argument) :
    Runs (do let _ ← advance (marksOf L); return some arg : Walk (Option Argument))
      (after before w)
      (some arg) (after (before ++ [l]) w) :=
  (advance_runs hL).bind (runs_pure _ _)

theorem not_isGap_of_isDelimiter (h : isDelimiter l = true) : l.isGap = false := by
  simp only [isDelimiter, Bool.or_eq_true, decide_eq_true_eq] at h
  rcases h with ((h | h) | h) | h <;> simp [Lexeme.isGap, h]

theorem not_isGap_of_standing (h : l.kind.isText = true ∨ l.kind = .controlSymbol) :
    l.isGap = false := by
  rcases h with h | h
  · exact not_isGap_of_isText h
  · simp [Lexeme.isGap, h]

theorem readDelimiter_runs_atom (hL : L = before ++ (gaps ++ l :: rest))
    (hgaps : ∀ g ∈ gaps, g.isGap = true) (hl : l ∈ (atom l).lexemes.head?)
    (hkind : isDelimiter l = true) (hsteps : gaps.length < steps) :
    ArgRuns (readDelimiter (marksOf L) steps) before w (.mk gaps .bare [atom l]) := by
  have hnext : L = (before ++ gaps) ++ l :: rest := by simpa using hL
  have hgap : ∀ k ∈ (l :: rest).head?, k.isGap = false := by
    rintro k ⟨⟩
    exact not_isGap_of_isDelimiter hkind
  refine argRuns_atom hl ?_
  rw [readDelimiter, atom_node]
  refine (runs_get _).bind
    ((skipGaps_runs hL hgaps hgap hsteps).bind ((peek_runs hnext).bind ?_))
  simp only [isDelimiter, Bool.or_eq_true, decide_eq_true_eq] at hkind
  rcases hkind with ((hkind | hkind) | hkind) | hkind <;>
    simpa only [markAt, Mark.kind?_some, hkind, reduceCtorEq, or_true,
      true_or, or_self, if_true, if_false]
      using take_runs hnext _

/-- A single lexeme is read as an argument behind any layout. -/
theorem readArgument_runs_atom (hL : L = before ++ (gaps ++ l :: rest))
    (hgaps : ∀ g ∈ gaps, g.isGap = true) (hl : l ∈ (atom l).lexemes.head?)
    (hkind : l.kind.isText = true ∨ l.kind = .controlSymbol)
    (hsteps : gaps.length < steps) :
    ArgRuns (readArgument table (marksOf L) (steps + 1) mode) before w
      (.mk gaps .bare [atom l]) := by
  have hnext : L = (before ++ gaps) ++ l :: rest := by simpa using hL
  have hgap : ∀ k ∈ (l :: rest).head?, k.isGap = false := by
    rintro k ⟨⟩
    exact not_isGap_of_standing hkind
  have hkind : (l.kind = .letter ∨ l.kind = .digit ∨ l.kind = .other) ∨
      l.kind = .controlSymbol :=
    hkind.imp_left LexemeKind.eq_of_isText
  refine argRuns_atom hl ?_
  rw [readArgument, atom_node]
  refine (runs_get _).bind
    ((skipGaps_runs hL hgaps hgap hsteps).bind ((peek_runs hnext).bind ?_))
  rcases hkind with (hkind | hkind | hkind) | hkind <;>
    simpa only [markAt, Mark.kind?_some, hkind, reduceCtorEq,
      or_true, or_self, if_true, if_false]
      using take_runs hnext _

/-- A group is read as an argument behind any layout, closed or not. -/
theorem readArgument_runs_group
    (hL : L = before ++ (argsLexemes [.mk gaps (.braces closed) body] ++ rest))
    (hgaps : ∀ g ∈ gaps, g.isGap = true) (hopen : closed = false → rest = [])
    (hsteps : gaps.length < steps + 1)
    (hbody : TreesRun table L steps .braces mode
      ((before ++ gaps) ++ [Lexeme.start '{']) w body) :
    ArgRuns (readArgument table (marksOf L) (steps + 2) mode) before w
      (.mk gaps (.braces closed) body) := by
  have hgap : L = before ++ (gaps ++ Lexeme.start '{' ::
      (treesLexemes body ++
        (charLexemes (Enclosure.braces closed).closing ++ rest))) := by
    simpa [Enclosure.opening] using hL
  have hnext : L = (before ++ gaps) ++ Lexeme.start '{' ::
      (treesLexemes body ++
        (charLexemes (Enclosure.braces closed).closing ++ rest)) := by simpa using hgap
  have hgroup : L = ((before ++ gaps) ++ [Lexeme.start '{']) ++
      (treesLexemes body ++
        (charLexemes (Enclosure.braces closed).closing ++ rest)) := by simpa using hgap
  refine ⟨_, rfl, ?_⟩
  rw [readArgument]
  refine (runs_get _).bind ((skipGaps_runs hgap hgaps (by rintro l ⟨⟩; rfl) hsteps).bind
    ((peek_runs hnext).bind ?_))
  refine (advance_runs hnext).bind
    ((readGroup_runs hgroup hopen hbody).bind (runs_pure_of_eq ?_ ?_))
  · simp [Enclosure.marks, Enclosure.opening, offset_append]
  · cases closed <;>
      simp [argsWarnings, Tree.warnings, Enclosure.opening,
      Enclosure.warnings, offset_append]

/-- A command is read as an argument behind any layout, together with its own
arguments. -/
theorem readArgument_runs_command {own : List Arg}
    (hL : L = before ++
      (argsLexemes [.mk gaps .bare [.command head own missing]] ++ rest))
    (hgaps : ∀ g ∈ gaps, g.isGap = true) (hkind : head.kind = .controlWord)
    (hsteps : gaps.length < steps + 1)
    (hread : argsRead table (if table.isTextual head.name then .text else mode)
      (table.slots head.name) rest missing own)
    (hown : ArgsRun table L steps (if table.isTextual head.name then .text else mode)
      ⟨some head, offset (before ++ gaps)⟩ (table.slots head.name)
        ((before ++ gaps) ++ [head]) w own
      missing) :
    ArgRuns (readArgument table (marksOf L) (steps + 2) mode) before w
      (.mk gaps .bare [.command head own missing]) := by
  have hgap : L = before ++ (gaps ++ head :: (argsLexemes own ++ rest)) := by
    simpa [Enclosure.opening, Enclosure.closing] using hL
  have hnext : L = (before ++ gaps) ++ head :: (argsLexemes own ++ rest) := by
    simpa using hgap
  have hpassed : L = ((before ++ gaps) ++ [head]) ++ (argsLexemes own ++ rest) := by
    simpa using hgap
  refine ⟨_, rfl, ?_⟩
  rw [readArgument]
  refine (runs_get _).bind
    ((skipGaps_runs hgap hgaps (by rintro l ⟨⟩; simp [Lexeme.isGap, hkind])
      hsteps).bind ((peek_runs hnext).bind ?_))
  simp only [markAt, Mark.kind?_some, hkind]
  refine (advance_runs hnext).bind
    ((readCommand_runs hpassed hread hown).bind (runs_pure_of_eq ?_ ?_))
  · simp [treesNodes, Enclosure.marks, Enclosure.opening, offset_append]
  · simp [argsWarnings, treesWarnings, Enclosure.opening, Enclosure.closing,
      Enclosure.warnings, offset_append]

/-- Brackets are read as an argument behind any layout, closed or not. -/
theorem readOptional_runs_brackets
    (hL : L = before ++ (argsLexemes [.mk gaps (.brackets closed) body] ++ rest))
    (hgaps : ∀ g ∈ gaps, g.isGap = true)
    (hopen : closed = false → ∀ l ∈ rest.head?, l.kind = .closeBrace)
    (hsteps : gaps.length < steps)
    (hbody : TreesRun table L steps .brackets mode
      ((before ++ gaps) ++ [Lexeme.start '[']) w body) :
    ArgRuns (readOptional table (marksOf L) (steps + 1) mode) before w
      (.mk gaps (.brackets closed) body) := by
  have hgap : L = before ++ (gaps ++ Lexeme.start '[' ::
      (treesLexemes body ++
        (charLexemes (Enclosure.brackets closed).closing ++ rest))) := by
    simpa [Enclosure.opening] using hL
  have hnext : L = (before ++ gaps) ++ Lexeme.start '[' ::
      (treesLexemes body ++
        (charLexemes (Enclosure.brackets closed).closing ++ rest)) := by
          simpa using hgap
  have hend : L = (((before ++ gaps) ++ [Lexeme.start '[']) ++ treesLexemes body) ++
      (charLexemes (Enclosure.brackets closed).closing ++ rest) := by simpa using hgap
  rw [TreesRun, offset_open] at hbody
  refine ⟨_, rfl, ?_⟩
  rw [readOptional]
  refine (runs_get _).bind ((skipGaps_runs hgap hgaps (by rintro l ⟨⟩; rfl) hsteps).bind
    ((peek_runs hnext).bind ?_))
  rw [if_pos (by rfl)]
  refine (advance_runs hnext).bind (hbody.bind ((peek_runs hend).bind ?_))
  cases closed with
  | true =>
      rw [if_pos (by rfl)]
      refine (advance_runs (by simpa [Enclosure.closing] using hend)).bind
        (runs_pure_of_eq ?_ ?_)
      · simp [Enclosure.marks, Enclosure.opening, offset_append]
      · simp [argsWarnings, Enclosure.opening, Enclosure.closing,
          Enclosure.warnings, offset_append]
  | false =>
      -- What ends the brackets here is a closing brace or the end, so no bracket
      -- closes them.
      have hbracket : (markAt
          (offset (((before ++ gaps) ++ [Lexeme.start '[']) ++ treesLexemes body))
          (charLexemes (Enclosure.brackets false).closing ++ rest)).lexeme?.any
            isCloseBracket = false := by
        cases rest with
        | nil => rfl
        | cons l rest => simp [Enclosure.closing, markAt,
            isCloseBracket, hopen rfl l rfl]
      rw [if_neg (Bool.eq_false_iff.mp hbracket)]
      refine (warn_runs _ _ _ _).bind (runs_pure_of_eq ?_ ?_)
      · simp [Enclosure.marks, Enclosure.opening, offset_append]
      · simp [argsWarnings, Enclosure.opening, Enclosure.closing,
          Enclosure.warnings, offset_append, markAt, Lexeme.start]

end Commands

end Formulary.Markup.Descent
