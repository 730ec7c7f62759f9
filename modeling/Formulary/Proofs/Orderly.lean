import Formulary.Command.Standard
import Formulary.Proofs.Symbols
import Formulary.Variable.Written

/-!
# Orderly tables

The naming of variables looks at the first argument of a decorator or of a script
mark, and at no argument of a command that names a letter.  In an orderly table this
passes nothing over, because there is no further argument that such a command could
be read with.

* `CommandTable.Orderly` says when a table is orderly, and the standard one is
  (`standard_orderly`).
* `nodesFit` says of nodes that nothing is passed over, and holds of all that are
  read (`parse_fits`).
-/

namespace Formulary

open Formulary.Markup

/-! ### Orderly tables -/

/-- Whether a command can start a name. -/
def CommandTable.startsName (t : CommandTable) (name : String) : Bool :=
  t.isLetter name || t.isDecorator name

/-- A table in which no argument of a letter or of a decorator is passed over, and in
which a constant has neither scripts nor decorations. -/
structure CommandTable.Orderly (t : CommandTable) : Prop where
  names : WordNames t.startsName
  letters : ∀ name, t.isLetter name = true → t.slots name = []
  decorators : ∀ name, t.isDecorator name = true → (t.slots name).length ≤ 1
  constants : ∀ name, t.isConstant name = true →
    '_' ∉ name.toList ∧ '^' ∉ name.toList ∧ '{' ∉ name.toList

theorem CommandTable.standard_orderly : CommandTable.standard.Orderly where
  names name h := by
    have hall : ∀ name ∈ standard.letters ++ (standard.accents ++ standard.fonts),
        name.toList.all Char.isAlpha = true := by decide +kernel
    exact List.all_eq_true.mp
      (hall name (by simpa [startsName, isLetter, isDecorator] using h))
  letters name h := by
    have hall : ∀ name ∈ standard.letters, standard.slots name = [] := by decide +kernel
    exact hall name (by simpa [isLetter] using h)
  decorators name h := by
    have hall : ∀ name ∈ standard.accents ++ standard.fonts,
        (standard.slots name).length ≤ 1 := by
      decide +kernel
    exact hall name (by simpa [isDecorator] using h)
  constants name h := by
    have hall : ∀ name ∈ standard.constants,
        '_' ∉ name.toList ∧ '^' ∉ name.toList ∧ '{' ∉ name.toList := by decide +kernel
    exact hall name (by simpa [isConstant] using h)

namespace Variable

variable {table : CommandTable}

theorem wordNames_isLetter (h : table.Orderly) : WordNames table.isLetter :=
  fun name hname => h.names name (by simp [CommandTable.startsName, hname])

/-! ### Arguments that are looked at -/

mutual

/-- No command has an argument that the naming of variables passes over. -/
def nodeFits (table : CommandTable) : Node → Prop
  | .text _ _ => True
  | .blank _ _ => True
  | .comment _ _ => True
  | .group children _ => nodesFit table children
  | .command name args _ =>
    (table.isLetter name = true → args = []) ∧
      ((isScriptName name || table.isDecorator name) = true → args.length ≤ 1) ∧
      argumentsFit table args

/-- No command among nodes in a row has an argument that is passed over. -/
def nodesFit (table : CommandTable) : List Node → Prop
  | [] => True
  | n :: ns => nodeFits table n ∧ nodesFit table ns

/-- No command in the contents of arguments has an argument that is passed over. -/
def argumentsFit (table : CommandTable) : List Argument → Prop
  | [] => True
  | .mk _ _ content :: rest => nodesFit table content ∧ argumentsFit table rest

end

/-- Skipping optional arguments leaves the last slots. -/
theorem skipOptional_suffix (l : Lexeme) (slots : List Slot) :
    skipOptional l slots <:+ slots := by
  fun_induction skipOptional l slots with
  | case1 => exact List.suffix_rfl
  | case2 => exact List.suffix_rfl
  | case3 rest _ ih => exact ih.trans (List.suffix_cons _ rest)
  | case4 => exact List.suffix_rfl

/-- Each argument of a command uses up a slot. -/
theorem exists_slot_of_argsRead {mode : Mode} {slots : List Slot} {rest : List Lexeme}
    {missing : Bool} {arg : Arg} {args : List Arg}
    (h : argsRead table mode slots rest missing (arg :: args)) :
    ∃ slot left, slot :: left <:+ slots ∧
      argsRead table mode left rest missing args := by
  match arg, h with
  | .mk before (.brackets closed) body, h =>
      simp only [argsRead] at h
      obtain ⟨-, -, -, left, rfl, hargs⟩ := h
      exact ⟨_, left, List.suffix_rfl, hargs⟩
  | .mk before (.braces closed) body, h =>
      simp only [argsRead] at h
      obtain ⟨-, -, -, left, hslots, hargs⟩ := h
      exact ⟨_, left, hslots ▸ skipOptional_suffix _ slots, hargs⟩
  | .mk before .bare [], h => simp [argsRead, bareReads] at h
  | .mk before .bare (_ :: _ :: _), h => simp [argsRead, bareReads] at h
  | .mk before .bare [t], h =>
      simp only [argsRead, bareReads] at h
      obtain ⟨-, left, ⟨l, -, ⟨hslots, -⟩ | ⟨hslots, -⟩⟩, hargs⟩ := h
      · exact ⟨_, left, hslots ▸ skipOptional_suffix _ slots, hargs⟩
      · exact ⟨_, left, hslots ▸ skipOptional_suffix _ slots, hargs⟩

/-- A command gets no more arguments than it has slots. -/
theorem length_le_of_argsRead {mode : Mode} {slots : List Slot}
    {rest : List Lexeme} {missing : Bool} {args : List Arg}
    (h : argsRead table mode slots rest missing args) :
    args.length ≤ slots.length := by
  induction args generalizing slots with
  | nil => exact Nat.zero_le _
  | cons arg args ih =>
      obtain ⟨slot, left, hleft, hargs⟩ := exists_slot_of_argsRead h
      have hlength := hleft.length_le
      have hrest := ih hargs
      rw [List.length_cons] at hlength ⊢
      omega

theorem length_argsArguments (start : Nat) (args : List Arg) :
    (argsArguments start args).length = args.length := by
  induction args generalizing start with
  | nil => rfl
  | cons arg args ih =>
      cases arg
      rw [argsArguments, List.length_cons, List.length_cons, ih]

theorem isScriptName_eq_false_of_controlWord {l : Lexeme} (hl : l.Proper)
    (hkind : l.kind = .controlWord) : isScriptName l.name = false := by
  have htext := text_eq_of_controlWord hl hkind
  have halpha : ∀ c ∈ l.name.toList, c.isAlpha = true := by
    obtain ⟨kind, text⟩ := l
    obtain rfl : kind = .controlWord := hkind
    obtain ⟨cs, hcs, -, hall⟩ := hl
    rw [htext] at hcs
    rw [(List.cons.inj hcs).2]
    exact hall
  by_contra hscript
  simp only [isScriptName, Bool.not_eq_false, Bool.or_eq_true,
    decide_eq_true_eq] at hscript
  rcases hscript with hname | hname <;> simp [hname] at halpha

/-- A command that is read has no argument that is passed over. -/
theorem command_fits (horderly : table.Orderly) {head : Lexeme}
    {args : List Arg} {mode : Mode} {rest : List Lexeme} {missing : Bool}
    (hhead : head.Proper)
    (hkind : head.kind = .controlWord ∨ head.kind = .subscript ∨
      head.kind = .superscript)
    (hargs : argsRead table mode (argumentSlots table head) rest missing args) :
    (table.isLetter head.name = true → args.length = 0) ∧
      ((isScriptName head.name || table.isDecorator head.name) = true →
        args.length ≤ 1) := by
  have hlength := length_le_of_argsRead hargs
  by_cases hword : head.kind = .controlWord
  · rw [argumentSlots, if_pos hword] at hlength
    refine ⟨fun hletter => ?_, fun h => ?_⟩
    · rw [horderly.letters head.name hletter] at hlength
      exact Nat.le_zero.mp hlength
    · rw [isScriptName_eq_false_of_controlWord hhead hword, Bool.false_or] at h
      exact hlength.trans (horderly.decorators head.name h)
  · rw [argumentSlots, if_neg hword] at hlength
    refine ⟨fun hletter => ?_, fun _ => hlength⟩
    obtain ⟨c, hc, halpha⟩ :=
      exists_not_isAlpha_of_mem_name hhead (.inr (hkind.resolve_left hword))
    simp [wordNames_isLetter horderly head.name hletter c hc] at halpha

/-- A lexeme that is an argument by itself has no arguments that could be passed
over. -/
theorem nodeFits_atom (l : Lexeme) (start : Nat) :
    nodeFits table ((atom l).node start) := by
  unfold atom
  split_ifs
  · simp [Tree.plain, Markup.Tree.node, argsArguments, nodeFits, argumentsFit]
  · simp [Markup.Tree.node, nodeFits]

mutual

theorem nodeFits_of_reads (horderly : table.Orderly) :
    (t : Tree) → (start : Nat) → (scope : Scope) → (mode : Mode) →
    (rest : List Lexeme) → t.Reads table scope mode rest → (∀ l ∈ t.lexemes, l.Proper) →
      nodeFits table (t.node start)
  | .text _, _, _, _, _, _, _ => by simp [Markup.Tree.node, nodeFits]
  | .gap lexeme, _, _, _, _, _, _ => by
      unfold Markup.Tree.node
      split_ifs <;> simp [nodeFits]
  | .stray, _, _, _, _, _, _ => by simp [Markup.Tree.node, nodeFits]
  | .group body closed, start, _, mode, rest, hreads, hproper => by
      simp only [Tree.Reads] at hreads
      rw [Markup.Tree.node, nodeFits]
      exact nodesFit_of_read horderly body _ .braces mode _ hreads.1 fun l hl =>
        hproper l (by simp [hl])
  | .command head args missing, start, _, mode, rest, hreads, hproper => by
      simp only [Tree.Reads] at hreads
      rw [Markup.Tree.node, nodeFits, ← List.length_eq_zero_iff, length_argsArguments]
      rcases hreads with ⟨-, rfl, -⟩ | ⟨hkind, hargs⟩
      · simp [argsArguments, argumentsFit]
      · obtain ⟨hletter, hscript⟩ :=
          command_fits horderly (hproper head (by simp)) hkind hargs
        exact ⟨hletter, hscript,
          argumentsFit_of_read horderly args _ _ _ rest missing hargs
          fun l hl => hproper l (by simp [hl])⟩

theorem nodesFit_of_read (horderly : table.Orderly) : (ts : List Tree) → (start : Nat) →
    (scope : Scope) → (mode : Mode) → (rest : List Lexeme) →
    treesRead table scope mode rest ts → (∀ l ∈ treesLexemes ts, l.Proper) →
      nodesFit table (treesNodes start ts)
  | [], _, _, _, _, _, _ => by simp [treesNodes, nodesFit]
  | t :: ts, start, scope, mode, rest, hreads, hproper => by
      simp only [treesRead] at hreads
      rw [treesNodes, nodesFit]
      exact ⟨nodeFits_of_reads horderly t start scope mode _ hreads.1
          fun l hl => hproper l (by simp [hl]),
        nodesFit_of_read horderly ts _ scope mode rest hreads.2 fun l hl =>
          hproper l (by simp [hl])⟩

/-- In arguments that are read nothing is passed over. -/
theorem argumentsFit_of_read (horderly : table.Orderly) :
    (args : List Arg) → (start : Nat) → (mode : Mode) → (slots : List Slot) →
    (rest : List Lexeme) → (missing : Bool) →
      argsRead table mode slots rest missing args → (∀ l ∈ argsLexemes args, l.Proper) →
      argumentsFit table (argsArguments start args)
  | [], _, _, _, _, _, _, _ => by simp [argsArguments, argumentsFit]
  | .mk before enclosure body :: args, start, mode, slots, rest, missing,
      hreads, hproper => by
      obtain ⟨-, -, hcontent, left, hargs⟩ := argsRead_cons hreads
      have hinside : ∀ l ∈ treesLexemes body, l.Proper :=
        fun l hl => hproper l (by simp [hl])
      rw [argsArguments, argumentsFit]
      refine ⟨?_, argumentsFit_of_read horderly args _ mode left rest missing hargs
        fun l hl => hproper l (by simp [hl])⟩
      rcases hcontent with ⟨scope, -, hbody⟩ | ⟨slots', left', hbody⟩
      · exact nodesFit_of_read horderly body _ scope mode _ hbody hinside
      · exact nodesFit_of_bare horderly body _ mode slots' left' _ hbody hinside

theorem nodesFit_of_bare (horderly : table.Orderly) :
    (body : List Tree) → (start : Nat) → (mode : Mode) → (slots left : List Slot) →
    (rest : List Lexeme) → bareReads table mode slots left rest body →
      (∀ l ∈ treesLexemes body, l.Proper) → nodesFit table (treesNodes start body)
  | [], _, _, _, _, _, hreads, _ => by simp only [bareReads] at hreads
  | [t], start, mode, _, _, rest, hreads, hproper => by
      simp only [bareReads] at hreads
      simp only [treesLexemes, List.append_nil] at hproper
      simp only [treesNodes, nodesFit, and_true]
      obtain ⟨l, -, ⟨-, -, rfl⟩ | ⟨-, ⟨-, ht⟩ | ⟨-, rfl⟩⟩⟩ := hreads
      · exact nodeFits_atom l start
      · exact nodeFits_of_reads horderly t start .top mode rest ht hproper
      · exact nodeFits_atom l start
  | _ :: _ :: _, _, _, _, _, _, hreads, _ => by simp only [bareReads] at hreads

end

/-- In the nodes of a source nothing is passed over. -/
theorem parse_fits (horderly : table.Orderly) (source : String) :
    nodesFit table (parse table source).nodes := by
  have hlex := parse_lexemes table source
  exact nodesFit_of_read horderly _ 0 .top .math [] (parse_reads table source)
    fun l hl => lex_proper source.toList l (hlex ▸ hl)

end Variable

end Formulary
