import Formulary.Proofs.BracedScripts
import Formulary.Proofs.Diagnostics

/-!
# The bodies of groups

What stands between braces is read as it would be on its own, if its own braces
match: its nodes and its warnings only move to the right.  This holds of groups and
of scripts in braces.

On its own a text ends with the source, and between braces with a closing brace.
Everything that looks ahead takes the two alike (`treesRead_of_replaces`): a closing
brace goes on with no run of characters, it is no argument of any command, and it
leaves an argument in brackets open just as the end of the source does.  Only braces
can tell the difference, and they do not if they match.

* `treesRead_braces_of_top` puts trees from the top of a source between braces.
* `bodies_read_alone` is the main statement.
-/

namespace Formulary.Markup

variable {table : CommandTable}

/-! ### From the top of a source into braces -/

/-- Only a stray brace has to stand at the top of a source. -/
theorem Tree.Reads.braces_of_top {t : Tree} {mode : Mode}
    {rest : List Lexeme} {start : Nat} (h : t.Reads table .top mode rest)
    (hwarns : Without .unmatchedBrace (t.warnings start)) :
    t.Reads table .braces mode rest := by
  cases t with
  | text chars =>
      simp only [Tree.Reads] at h ⊢
      exact ⟨by simp, h.2⟩
  | stray => exact absurd rfl (hwarns _ (List.mem_singleton_self _))
  | _ => simpa only [Tree.Reads] using h

/-- What has no stray brace at the top level reads the same between braces. -/
theorem treesRead_braces_of_top {ts : List Tree} {mode : Mode}
    {rest : List Lexeme} {start : Nat} (h : treesRead table .top mode rest ts)
    (hwarns : Without .unmatchedBrace (treesWarnings start ts)) :
    treesRead table .braces mode rest ts := by
  induction ts generalizing start with
  | nil => simp only [treesRead]
  | cons t ts ih =>
      simp only [treesRead] at h ⊢
      simp only [treesWarnings, without_append] at hwarns
      exact ⟨h.1.braces_of_top hwarns.1, ih h.2 hwarns.2⟩

/-- Nothing is reported if there is no such complaint. -/
theorem reported_eq_nil_iff {complaint : Complaint} {ws : List Warning} :
    reported complaint ws = [] ↔ Without complaint ws := by
  simp [reported, Without]

/-- The braces of a source match: a stack takes all of them in pairs. -/
def BracesMatch (source : String) : Prop :=
  (matchBraces (tokenize source)).strays = [] ∧
    (matchBraces (tokenize source)).opened = []

instance (source : String) : Decidable (BracesMatch source) :=
  inferInstanceAs (Decidable (_ ∧ _))

section Body

variable {source : String}

/-- A source whose braces match is read between braces as it is on its own. -/
theorem BracesMatch.reads (h : BracesMatch source) (tail : List Lexeme) :
    treesRead table .braces .math (Lexeme.start '}' :: tail)
      (parse table source).trees := by
  obtain ⟨hstrays, hopened⟩ := matchBraces_tokenize table source
  have hmatched : Without .unmatchedBrace (parse table source).warnings :=
    reported_eq_nil_iff.mp (hstrays.symm.trans h.1)
  have hterminated : Without .unterminatedGroup (parse table source).warnings :=
    reported_eq_nil_iff.mp (hopened.symm.trans h.2)
  have hbraces := treesRead_braces_of_top (parse_reads table source) hmatched
  exact treesRead_of_replaces _ 0 .braces .math [] _ (.closeBrace tail [])
    (.inr hterminated) hbraces

/-- Braces around a text that may stand in front of a mark are lexemes of their
own. -/
theorem EndsBeforeMark.isCut_braces {p : List Char} (h : EndsBeforeMark p) :
    IsCut (Lexeme.start '{' :: (lex p ++ [Lexeme.start '}'])) :=
  (h.append (by decide) (by decide) (isCut_nil.start rfl (by decide))).start
    rfl (by decide)

/-- The tree of a source in braces. -/
theorem BracesMatch.parse_group (h : BracesMatch source)
    (hend : EndsBeforeMark source.toList) :
    (parse table ("\x7b" ++ source ++ "\x7d")).trees =
      [.group (parse table source).trees true] := by
  have hreads : treesRead table .top .math []
      [.group (parse table source).trees true] := by
    simp only [treesRead, Tree.Reads]
    exact ⟨⟨h.reads _, by simp⟩, trivial⟩
  have hlex : lex ("\x7b" ++ source ++ "\x7d").toList =
      treesLexemes [.group (parse table source).trees true] := by
    simpa [IsCut, lexemesText_lex, Lexeme.start, parse_lexemes, Enclosure.closing]
      using hend.isCut_braces
  rw [parse, hlex]
  exact readTrees_treesLexemes hreads

/-- The tree of a script in braces. -/
theorem BracesMatch.parse_script (h : BracesMatch source)
    (hend : EndsBeforeMark source.toList) {c : Char} (hc : c = '_' ∨ c = '^') :
    (parse table (String.ofList [c] ++ "\x7b" ++ source ++ "\x7d")).trees =
      [.command (Lexeme.start c)
        [.mk [] (.braces true) (parse table source).trees] false] := by
  have hkind : (Lexeme.start c).kind = .subscript ∨
      (Lexeme.start c).kind = .superscript := by
    rcases hc with rfl | rfl <;> decide
  have hword : (Lexeme.start c).kind ≠ .controlWord := startKind_ne_controlWord c
  have hreads : treesRead table .top .math []
      [.command (Lexeme.start c)
        [.mk [] (.braces true) (parse table source).trees] false] := by
    simp only [treesRead, Tree.Reads, argumentMode, argumentSlots, if_neg hword]
    exact ⟨.inr ⟨.inr hkind, argsRead_braced h.reads _⟩, trivial⟩
  have hcut : IsCut (Lexeme.start c :: Lexeme.start '{' ::
      (lex source.toList ++ [Lexeme.start '}'])) := by
    rcases hc with rfl | rfl <;> exact hend.isCut_braces.start rfl (by decide)
  have hlex : lex (String.ofList [c] ++ "\x7b" ++ source ++ "\x7d").toList =
      treesLexemes [.command (Lexeme.start c)
        [.mk [] (.braces true) (parse table source).trees] false] := by
    simpa [IsCut, lexemesText_lex, Lexeme.start, parse_lexemes,
      Enclosure.opening, Enclosure.closing]
      using hcut
  rw [parse, hlex]
  exact readTrees_treesLexemes hreads

end Body

/-! ### Nodes and warnings -/

/-- **The bodies of groups and of scripts are read as they are on their own.**  If
the braces of a source match and it does not end in a comment or a lone backslash,
which would take in the closing brace, then between braces it is one group, and
behind a script mark and between braces it is the one argument of one script.  The
nodes and the warnings are those of the source by itself, further right by what
stands in front.  The source may still leave brackets open or commands without
arguments. -/
theorem bodies_read_alone (table : CommandTable) (source : String)
    (hbraces : BracesMatch source) (hend : ∀ tok ∈ (tokenize source).getLast?,
      tok.lexeme.kind ≠ .comment ∧ tok.lexeme ≠ ⟨.other, ['\\']⟩) :
    let alone := parse table source
    let group := parse table ("\x7b" ++ source ++ "\x7d")
    (group.nodes = [.group (alone.nodes.map (Node.shift 1))
      (some ⟨0, source.length + 2⟩)] ∧
        group.warnings = alone.warnings.map (Warning.shift 1)) ∧
      ∀ c, c = '_' ∨ c = '^' →
        let script := parse table (String.ofList [c] ++ "\x7b" ++ source ++ "\x7d")
        script.nodes = [.command (String.ofList [c])
            [.mk "\x7b" "\x7d" (alone.nodes.map (Node.shift 2))]
              (some ⟨0, source.length + 3⟩)] ∧
          script.warnings = alone.warnings.map (Warning.shift 2) := by
  intro alone group
  have hfront : EndsBeforeMark source.toList := .of_tokenize hend
  have hlength : (treesChars alone.trees).length = source.length := by
    rw [parse_chars, String.length_toList]
  have hnodes (k : Nat) :
      treesNodes k alone.trees = alone.nodes.map (Node.shift k) := by
    rw [← nodesShift_eq_map, Document.nodes, ← treesNodes_add, Nat.add_zero]
  have hwarnings (k : Nat) :
      treesWarnings k alone.trees = alone.warnings.map (Warning.shift k) := by
    rw [Document.warnings, ← treesWarnings_add, Nat.add_zero]
  refine ⟨?_, fun c hc => ?_⟩
  · rw [Document.nodes, Document.warnings, hbraces.parse_group hfront]
    simp [treesNodes, treesWarnings, Tree.node, Tree.warnings, Tree.width,
      Tree.chars, hlength, hnodes, hwarnings, alone]
  · have hname : (Lexeme.start c).name = String.ofList [c] := by
      rcases hc with rfl | rfl <;> rfl
    intro script
    rw [Document.nodes, Document.warnings, hbraces.parse_script hfront hc]
    simp [treesNodes, treesWarnings, Tree.node, Tree.warnings, argsArguments,
      argsWarnings, Tree.width, Tree.chars, argsChars, Enclosure.opening,
      Enclosure.closing, Enclosure.marks, Enclosure.warnings, Lexeme.text_start, hname,
      hlength, hnodes, hwarnings, alone]

/-- A body with a group of its own, brackets that are left open, and in them a script
without its argument. -/
theorem bodies_read_alone_open :
    let source := "\x7ba\x7d\\sqrt[x_"
    BracesMatch source ∧
      (∀ tok ∈ (tokenize source).getLast?,
        tok.lexeme.kind ≠ .comment ∧ tok.lexeme ≠ ⟨.other, ['\\']⟩) ∧
      (parse .standard source).warnings =
        [⟨.missingArgument, 10, ['_']⟩, ⟨.unterminatedOptional, 8, ['[']⟩,
          ⟨.missingArgument, 3, "\\sqrt".toList⟩] ∧
      (parse .standard ("\x7b" ++ source ++ "\x7d")).warnings =
        (parse .standard source).warnings.map (Warning.shift 1) ∧
      (parse .standard (String.ofList ['^'] ++ "\x7b" ++ source ++ "\x7d")).nodes =
        [.command (String.ofList ['^'])
          [.mk "\x7b" "\x7d" ((parse .standard source).nodes.map (Node.shift 2))]
            (some ⟨0, 14⟩)] := by
  intro source
  have hbraces : BracesMatch source := by decide +kernel
  have hend : ∀ tok ∈ (tokenize source).getLast?,
      tok.lexeme.kind ≠ .comment ∧ tok.lexeme ≠ ⟨.other, ['\\']⟩ := by decide +kernel
  have hlength : source.length = 11 := by decide +kernel
  obtain ⟨hgroup, hscript⟩ := bodies_read_alone .standard source hbraces hend
  rw [hlength] at hscript
  exact ⟨hbraces, hend, by decide +kernel, hgroup.2, (hscript '^' (.inr rfl)).1⟩

end Formulary.Markup
