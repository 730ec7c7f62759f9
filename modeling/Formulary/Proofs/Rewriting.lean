import Formulary.Proofs.Lookahead
import Formulary.Proofs.TidyTrees

/-!
# Reading what was written

The nodes of a tidy source, written anew and read again, are the same nodes but for
places, layout and the marks that scripts and decorators are written with.  Two
things have to be seen for this: the trees that should be read again are a reading in
the sense of the grammar (`treesRead_rewritten`), and their lexemes are those of the
text that is written (`treesCut_rewritten`).

The first rests on what a tree needs to know about what follows it.  The text after a
tree changes, but where the tree ended before, it still ends: in front of the same
lexeme, or in front of a closing brace.  The second rests on what two lexemes need to
stay apart: no letter comes to stand behind a control word and no blank behind a
blank, since every new neighbour is a brace, a bracket or a delimiter.
-/

namespace Formulary.Markup

open Formulary.Variable

variable {table : CommandTable}

/-! ### What follows a tree -/

namespace Replaces

variable {rest rest' : List Lexeme}

/-- Blank space may be replaced by other blank space. -/
theorem blank (h : Replaces rest' rest) {l l' : Lexeme} (hl : l.kind = .blank)
    (hl' : l'.kind = .blank) : Replaces (l' :: rest') (l :: rest) where
  head m hm := by
    obtain rfl : l' = m := by simpa using hm
    exact .inr ⟨l, rfl, by rw [hl, hl']⟩
  ahead m hm := by
    rw [ahead_cons_of_isGap (by simp [Lexeme.isGap, hl'])] at hm
    rw [ahead_cons_of_isGap (by simp [Lexeme.isGap, hl])]
    exact h.ahead m hm

/-- Trees that are read again start as the trees did before. -/
theorem trees (h : Replaces rest' rest) {ts : List Tree} (hts : treesTidy table ts) :
    Replaces (treesLexemes (treesRewritten table ts) ++ rest')
      (treesLexemes ts ++ rest) := by
  induction ts with
  | nil => exact h
  | cons t ts ih =>
      simp only [treesTidy] at hts
      rw [treesRewritten, treesLexemes, treesLexemes,
        List.append_assoc, List.append_assoc]
      obtain ⟨ht, hts⟩ := hts
      cases t with
      | text chars =>
          simp only [Tree.Tidy] at ht
          obtain ⟨c, cs, rfl⟩ := List.exists_cons_of_ne_nil ht.1
          have hgap : (Lexeme.start c).isGap = false :=
            not_isGap_of_isText (ht.2 c (by simp)).1
          exact same_start hgap _ _
      | gap lexeme =>
          simp only [Tree.Tidy] at ht
          exact (ih hts).blank ht rfl
      | stray => exact same_start rfl _ _
      | group _ _ => simp only [Tree.Tidy] at ht
      | command head args missing =>
          simp only [Tree.Tidy] at ht
          have hgap : head.isGap = false := by
            rcases ht.2.2.1 with ⟨hkind, -⟩ | hkind | hkind | hkind <;>
              simp [Lexeme.isGap, hkind]
          exact same_start hgap _ _

end Replaces

/-! ### The grammar -/

/-- A single character or control symbol between braces. -/
theorem atom_reads_braces {l : Lexeme} (hl : l ∈ (atom l).lexemes.head?)
    (hkind : l.kind.isText = true ∨ l.kind = .controlSymbol) (mode : Mode)
    (tail : List Lexeme) :
    (atom l).Reads table .braces mode (Lexeme.start '}' :: tail) := by
  rcases hkind with hkind | hkind
  · obtain ⟨c, rfl, hatom⟩ := eq_start_of_atom hl hkind
    rw [hatom, Tree.Reads]
    refine ⟨by simp, ?_⟩
    cases hjoin : mode.joins (Lexeme.startKind c) with
    | false => exact .inl ⟨c, rfl, hkind, hjoin⟩
    | true =>
        refine .inr ⟨by simp, by simpa using hjoin, fun m hm => ?_⟩
        obtain rfl : Lexeme.start '}' = m := by simpa using hm
        cases mode <;> rfl
  · have hatom : atom l = .plain l := if_pos (.inr hkind)
    rw [hatom, Tree.plain, Tree.Reads]
    exact .inl ⟨hkind, rfl, rfl⟩

/-- A single character is a bare argument. -/
theorem bareReads_character {c : Char}
    (h : (Lexeme.startKind c).isText = true) (mode : Mode) (rest : List Lexeme) :
    bareReads table mode [.mandatory] [] rest [.text [c]] := by
  simp only [bareReads]
  exact ⟨Lexeme.start c, rfl, .inr ⟨rfl, .inr ⟨.inl h, (atom_start h).symm⟩⟩⟩

/-- An argument in braces is read whatever follows it. -/
theorem argsRead_braced {mode : Mode} {body : List Tree}
    (hbody : ∀ tail, treesRead table .braces mode (Lexeme.start '}' :: tail) body)
    (rest : List Lexeme) :
    argsRead table mode [.mandatory] rest false [.mk [] (.braces true) body] := by
  simp only [argsRead]
  exact ⟨by simp, hbody _, by simp, [], rfl, fun _ _ => rfl, rfl⟩

theorem argsRead_character {c : Char}
    (h : (Lexeme.startKind c).isText = true) (mode : Mode) (rest : List Lexeme) :
    argsRead table mode [.mandatory] rest false [.mk [] .bare [.text [c]]] := by
  simp only [argsRead]
  exact ⟨by simp, [], bareReads_character h mode _, fun _ _ => rfl, rfl⟩

/-- The slots that are left after one that is filled are the last ones. -/
theorem suffix_of_skipOptional {l : Lexeme} {slots left : List Slot} {slot : Slot}
    (h : skipOptional l slots = slot :: left) : left <:+ slots := by
  have hskip := skipOptional_suffix l slots
  rw [h] at hskip
  exact (List.suffix_cons slot left).trans hskip

/-- Script marks and decorators are written with braces, but for a script that is a
digit. -/
theorem writtenEnclosure_of_dropsMarks {name : String}
    (h : dropsMarks table name = true) (enclosure : Enclosure) (body : List Tree) :
    writtenEnclosure table name enclosure body = .braces true ∨
      ∃ c, body = [.text [c]] ∧ writtenEnclosure table name enclosure body = .bare ∧
        Text.isDigit c = true := by
  cases hscript : isScriptName name with
  | false =>
      have hdecorator : table.isDecorator name = true := by
        simpa [dropsMarks, hscript] using h
      simp [writtenEnclosure, hscript, hdecorator]
  | true =>
      simp only [writtenEnclosure, hscript, if_true]
      unfold scriptEnclosure
      split
      · next c =>
        split_ifs with hdigit
        · exact .inr ⟨c, rfl, rfl, hdigit⟩
        · exact .inl rfl
      · exact .inl rfl

/-- The one argument of a script mark or of a decorator is read whatever follows
it. -/
theorem argsRead_scriptBody {name : String} (hname : dropsMarks table name = true)
    {before : List Lexeme} {enclosure : Enclosure} {body : List Tree} {mode : Mode}
    (htidy : treesTidy table body)
    (hbody : ∀ tail,
      treesRead table .braces mode (Lexeme.start '}' :: tail)
        (treesRewritten table body))
    (rest : List Lexeme) :
    argsRead table mode [.mandatory] rest false
      (argsRewritten table name [.mk before enclosure body]) := by
  simp only [argsRewritten]
  rcases writtenEnclosure_of_dropsMarks hname enclosure body
    with hbraces | ⟨c, rfl, hbare, -⟩
  · rw [hbraces]
    exact argsRead_braced hbody rest
  · simp only [treesTidy, Tree.Tidy] at htidy
    rw [hbare]
    exact argsRead_character (htidy.1.2 c (by simp)).1 mode rest

mutual

/-- **A tidy tree is read again** wherever it ends as it did before. -/
theorem Tree.reads_rewritten (hregular : table.Regular) : (t : Tree) → (scope : Scope) →
    (mode : Mode) → (rest rest' : List Lexeme) → t.Tidy table →
    t.Reads table scope mode rest → Replaces rest' rest →
      (t.rewritten table).Reads table scope mode rest'
  | .text chars, _, _, _, _, _, hreads, h => by
      simp only [Tree.rewritten, Tree.Reads] at hreads ⊢
      exact readsText_of_replaces h hreads
  | .gap _, _, _, _, _, _, _, _ => by
      simp only [Tree.rewritten, Tree.Reads]
      rfl
  | .stray, _, _, _, _, _, hreads, _ => by
      simpa only [Tree.rewritten, Tree.Reads] using hreads
  | .group _ _, _, _, _, _, htidy, _, _ => by simp only [Tree.Tidy] at htidy
  | .command head args missing, _, mode, rest, rest', htidy, hreads, h => by
      simp only [Tree.Tidy] at htidy
      simp only [Tree.rewritten, Tree.Reads] at hreads ⊢
      obtain ⟨hproper, -, -, hargs⟩ := htidy
      rcases hreads with ⟨hkind, rfl, hmissing⟩ | ⟨hkind, hreads⟩
      · exact .inl ⟨hkind, rfl, hmissing⟩
      · refine .inr ⟨hkind, ?_⟩
        cases hname : dropsMarks table head.name with
        | false =>
            rw [argumentSlots_of_keepsMarks hproper hkind hname] at hreads ⊢
            exact argsRead_rewritten hregular head.name args _ _
              rest rest' missing hname
              List.suffix_rfl hargs hreads h
        | true =>
            rw [argumentSlots_of_dropsMarks hregular hproper hname] at hreads ⊢
            exact argsRead_script hregular head.name args _ rest rest'
              missing hname hargs hreads
              (.inr h)

/-- Tidy trees that are written anew are read as such. -/
theorem treesRead_rewritten (hregular : table.Regular) :
    (ts : List Tree) → (scope : Scope) → (mode : Mode) → (rest rest' : List Lexeme) →
    treesTidy table ts → treesRead table scope mode rest ts → Replaces rest' rest →
      treesRead table scope mode rest' (treesRewritten table ts)
  | [], _, _, _, _, _, _, _ => by simp only [treesRewritten, treesRead]
  | t :: ts, scope, mode, rest, rest', htidy, hreads, h => by
      simp only [treesTidy] at htidy
      simp only [treesRewritten, treesRead] at hreads ⊢
      exact ⟨t.reads_rewritten hregular scope mode _ _ htidy.1
        hreads.1 (h.trees htidy.2),
        treesRead_rewritten hregular ts scope mode rest rest' htidy.2 hreads.2 h⟩

/-- Tidy arguments that are written anew are read for the same slots. -/
theorem argsRead_rewritten (hregular : table.Regular)
    (name : String) : (args : List Arg) → (mode : Mode) → (slots : List Slot) →
    (rest rest' : List Lexeme) → (missing : Bool) → dropsMarks table name = false →
    slots <:+ table.slots name → argsTidy table name args →
      argsRead table mode slots rest missing args → Replaces rest' rest →
      argsRead table mode slots rest' missing (argsRewritten table name args)
  | [], _, _, _, _, _, _, _, _, hreads, h => by
      simp only [argsRewritten, argsRead] at hreads ⊢
      exact ⟨accepts_of_replaces h hreads.1, hreads.2⟩
  | .mk before (.brackets closed) body :: args, mode, slots, rest, rest',
      missing, hname, hslots,
      htidy, hreads, h => by
      simp only [argsTidy] at htidy
      obtain ⟨hbody, hargs, -⟩ := htidy
      have henclosure : writtenEnclosure table name (.brackets closed) body =
          .brackets closed :=
        writtenEnclosure_of_keepsMarks hname _ body
      simp only [argsRewritten, henclosure, argsRead] at hreads ⊢
      obtain ⟨-, hread, hopen, left, rfl, hmore⟩ := hreads
      have hmore' := argsRead_rewritten hregular name args mode left
        rest rest' missing hname
        ((List.suffix_cons _ left).trans hslots) hargs hmore h
      refine ⟨by simp, ?_, ?_, left, rfl, hmore'⟩
      · refine treesRead_rewritten hregular body .brackets mode _ _ hbody hread ?_
        cases closed with
        | true => exact Replaces.same_start rfl _ _
        | false =>
            obtain ⟨rfl, -⟩ := hopen rfl
            exact h
      · intro hclosed
        obtain ⟨rfl, hend⟩ := hopen hclosed
        exact ⟨rfl, closeBrace_of_replaces h hend⟩
  | .mk before (.braces closed) body :: args, mode, slots, rest, rest',
      missing, hname, hslots,
      htidy, hreads, h => by
      simp only [argsTidy] at htidy
      obtain ⟨hbody, hargs, -⟩ := htidy
      have henclosure : writtenEnclosure table name (.braces closed) body =
          .braces true :=
        writtenEnclosure_of_keepsMarks hname _ body
      simp only [argsRewritten, henclosure, argsRead] at hreads ⊢
      obtain ⟨-, hread, -, left, hskip, hmore⟩ := hreads
      have hleft : left <:+ table.slots name :=
        (suffix_of_skipOptional hskip).trans hslots
      have hmore' := argsRead_rewritten hregular name args mode left rest
        rest' missing hname hleft
        hargs hmore h
      refine ⟨by simp, ?_, by simp, left, hskip, hmore'⟩
      exact treesRead_rewritten hregular body .braces mode _ _ hbody hread
        (Replaces.closeBrace _ _)
  | .mk before .bare body :: args, mode, slots, rest, rest', missing, hname,
      hslots, htidy, hreads,
      h => by
      simp only [argsTidy] at htidy
      obtain ⟨-, hargs, -, hbare⟩ := htidy
      obtain ⟨hdelimiter, l, rfl, hlexemes, hl, -⟩ := hbare hname trivial
      have henclosure : writtenEnclosure table name .bare [atom l] = .bare :=
        writtenEnclosure_of_keepsMarks hname _ _
      simp only [argsRewritten, henclosure, treesRewritten, rewritten_atom,
        argsRead] at hreads ⊢
      obtain ⟨-, left, hread, hmore⟩ := hreads
      simp only [bareReads, hlexemes, List.head?_cons, Option.mem_some_iff,
        exists_eq_left'] at hread ⊢
      have hdelimiters := hregular.delimiters name hdelimiter
      obtain ⟨hskip, -⟩ | ⟨hskip, -⟩ := hread
      · have hleft : left <:+ table.slots name :=
          (suffix_of_skipOptional hskip).trans hslots
        exact ⟨by simp, left, .inl ⟨hskip, hl, trivial⟩,
          argsRead_rewritten hregular name args mode left
          rest rest' missing hname hleft hargs hmore h⟩
      · -- A command with a delimiter has no slot for anything else.
        have hmandatory : Slot.mandatory ∈ table.slots name :=
          hslots.subset ((skipOptional_suffix l slots).subset (by simp [hskip]))
        simp [hdelimiters] at hmandatory

/-- A script mark or a decorator that has its argument is read again whatever
follows. -/
theorem argsRead_script (hregular : table.Regular) (name : String) : (args : List Arg) →
    (mode : Mode) → (rest rest' : List Lexeme) → (missing : Bool) →
    dropsMarks table name = true → argsTidy table name args →
    argsRead table mode [.mandatory] rest missing args →
      (args ≠ [] ∨ Replaces rest' rest) →
      argsRead table mode [.mandatory] rest' missing (argsRewritten table name args)
  | [], _, _, _, _, _, _, hreads, h => by
      simp only [argsRewritten, argsRead] at hreads ⊢
      exact ⟨accepts_of_replaces (h.resolve_left fun hne => hne rfl) hreads.1, hreads.2⟩
  | [.mk before (.brackets closed) body], _, _, _, _, _, _, hreads, _ => by
      simp only [argsRead] at hreads
      obtain ⟨-, -, -, left, hslots, -⟩ := hreads
      cases hslots
  -- A script has one argument. Written again, it stands in braces, so it is enough
  -- that its body can be read in front of a closing brace.
  | [.mk before (.braces closed) body], mode, rest, rest', missing, hname,
      htidy, hreads, _ => by
      simp only [argsTidy] at htidy
      simp only [argsRead] at hreads
      obtain ⟨-, hbody, -, left, hskip, -, rfl⟩ := hreads
      obtain rfl : [] = left := (List.cons.inj hskip).2
      exact argsRead_scriptBody hname htidy.1
        (fun tail => treesRead_rewritten hregular body .braces
          mode _ _ htidy.1 hbody (Replaces.closeBrace tail _)) rest'
  | [.mk before .bare []], _, _, _, _, _, _, hreads, _ => by
      simp [argsRead, bareReads] at hreads
  | [.mk before .bare (_ :: _ :: _)], _, _, _, _, _, _, hreads, _ => by
      simp [argsRead, bareReads] at hreads
  | [.mk before .bare [t]], mode, rest, rest', missing, hname, htidy, hreads, _ => by
      simp only [argsTidy] at htidy
      simp only [argsRead, bareReads] at hreads
      obtain ⟨-, left, ⟨l, hl, ⟨hskip, -⟩ | ⟨hskip, hcases⟩⟩, hmore⟩ := hreads
      · cases hskip
      · obtain rfl : [] = left := (List.cons.inj hskip).2
        obtain ⟨-, rfl⟩ := hmore
        refine argsRead_scriptBody hname htidy.1 (fun tail => ?_) rest'
        simp only [treesRewritten, treesRead, and_true, treesLexemes, List.nil_append]
        rcases hcases with ⟨hword, ht⟩ | ⟨hkind, rfl⟩
        · simp only [treesTidy, and_true] at htidy
          have hread := t.reads_rewritten hregular .top mode _
            (Lexeme.start '}' :: tail) htidy.1 ht
            (Replaces.closeBrace tail _)
          obtain ⟨args, missing', rfl⟩ := ht.eq_command hl hword
          simpa only [Tree.rewritten, Tree.Reads] using hread
        · rw [rewritten_atom]
          exact atom_reads_braces hl hkind mode tail
  | .mk _ _ _ :: .mk _ _ _ :: _, _, _, _, _, hname, htidy, _, _ => by
      simp only [argsTidy] at htidy
      exact absurd (htidy.2.2.1 hname) (List.cons_ne_nil _ _)

end

/-! ### The lexemes -/

/-- Lexemes that their own text is cut into. -/
def IsCut (ls : List Lexeme) : Prop :=
  lex (lexemesText ls) = ls

theorem isCut_lex (cs : List Char) : IsCut (lex cs) := by
  rw [IsCut, lexemesText_lex]

theorem isCut_nil : IsCut [] := rfl

/-- Lexemes are cut as they stand if each one is proper and does not grow together
with the next. -/
theorem isCut_cons {l : Lexeme} {ls : List Lexeme} :
    IsCut (l :: ls) ↔ l.Proper ∧ (∀ m ∈ ls.head?, l.Apart m) ∧ IsCut ls := by
  simp only [IsCut, lex_eq_iff, List.forall_mem_cons, List.isChain_cons, true_and]
  tauto

/-- The last of some lexemes are cut as they stand if all of them are. -/
theorem IsCut.right_of_append {ls ms : List Lexeme} (h : IsCut (ls ++ ms)) : IsCut ms :=
  (lex_append h).2

/-- The characters that open a lexeme of a kind open no other. -/
theorem startKind_eq_iff {c : Char} {kind : LexemeKind} :
    Lexeme.startKind c = kind ↔ kind.Opens c := by
  refine ⟨Lexeme.opens_of_startKind, fun h => ?_⟩
  cases kind with
  | blank =>
      have hblank : Text.isBlank c = true := h
      have hpercent : c ≠ '%' := by
        rintro rfl
        exact absurd hblank (by decide)
      simp [Lexeme.startKind, hpercent, hblank]
  | controlWord => exact False.elim h
  | controlSymbol => exact False.elim h
  | letter => exact startKind_of_isAlpha h
  | digit => exact startKind_of_isDigit h
  | other =>
      obtain ⟨hmarks, hblank, halpha, hdigit⟩ := h
      simp only [List.mem_cons, List.not_mem_nil, or_false, not_or] at hmarks
      simp [Lexeme.startKind, hmarks, hblank, halpha, hdigit]
  -- What is left is opened by a single character.
  | _ =>
      obtain rfl := h
      rfl

theorem startKind_eq_blank_iff {c : Char} :
    Lexeme.startKind c = .blank ↔ Text.isBlank c = true :=
  startKind_eq_iff

theorem startKind_eq_letter_iff {c : Char} :
    Lexeme.startKind c = .letter ↔ c.isAlpha = true :=
  startKind_eq_iff

/-- The first character of a lexeme shows its kind, or is a backslash. -/
theorem Lexeme.Proper.startKind_head {l : Lexeme} (hl : l.Proper) {c : Char}
    (hc : c ∈ l.text.head?) :
    startKind c = l.kind ∨ startKind c = .other ∧
      (l.kind = .controlWord ∨ l.kind = .controlSymbol) := by
  obtain ⟨kind, text⟩ := l
  have hsingle : (∃ d, text = [d] ∧ startKind d = kind) → startKind c = kind := by
    rintro ⟨d, rfl, hd⟩
    obtain rfl : d = c := by simpa using hc
    exact hd
  cases kind with
  | comment =>
      obtain ⟨cs, rfl, -⟩ := hl
      obtain rfl : '%' = c := by simpa using hc
      exact .inl rfl
  | blank => exact .inl (startKind_eq_blank_iff.mpr (hl.2 c (List.mem_of_mem_head? hc)))
  | controlWord =>
      obtain ⟨cs, rfl, -, -⟩ := hl
      obtain rfl : '\\' = c := by simpa using hc
      exact .inr ⟨by decide, .inl rfl⟩
  | controlSymbol =>
      obtain ⟨d, rfl, -⟩ := hl
      obtain rfl : '\\' = c := by simpa using hc
      exact .inr ⟨by decide, .inr rfl⟩
  | _ => exact .inl (hsingle hl)

/-- Only a blank starts with a blank character and only a letter with a letter. -/
theorem Lexeme.Proper.head_iff {l : Lexeme} (hl : l.Proper) {c : Char}
    (hc : c ∈ l.text.head?) :
    (Text.isBlank c = true ↔ l.kind = .blank) ∧
      (c.isAlpha = true ↔ l.kind = .letter) := by
  rw [← startKind_eq_blank_iff, ← startKind_eq_letter_iff]
  rcases hl.startKind_head hc with hkind | ⟨hkind, hword | hsymbol⟩ <;> simp [*]

/-- Which lexemes keep apart can be told from their kinds, but for a comment, which
goes on up to a newline, and a lone backslash, which takes in any character. -/
theorem apart_iff_of_proper {l m : Lexeme} (hm : m.Proper) :
    l.Apart m ↔
      (l.kind = .comment → m.text.head? = some '\n') ∧
        (l.kind = .blank → m.kind ≠ .blank) ∧
        (l.kind = .controlWord → m.kind ≠ .letter) ∧ l ≠ ⟨.other, ['\\']⟩ := by
  obtain ⟨c, cs, htext⟩ := List.exists_cons_of_ne_nil hm.text_ne_nil
  obtain ⟨hblank, halpha⟩ := hm.head_iff (c := c) (by simp [htext])
  obtain ⟨kind, text⟩ := l
  have hapart : Lexeme.Apart ⟨kind, text⟩ m ↔
      Lexeme.extendKind? ⟨kind, text⟩ c = none := by
    simp [Lexeme.Apart, htext, Lexeme.extend?]
  rw [hapart, ne_eq, ne_eq, ← hblank, ← halpha, htext]
  cases kind <;> simp [Lexeme.extendKind?]

/-- Which tidy lexemes keep apart can be told from their kinds. -/
theorem apart_iff {l m : Lexeme} (hl : l.isTidy = true) (hm : m.Proper) :
    l.Apart m ↔
      (l.kind = .blank → m.kind ≠ .blank) ∧
        (l.kind = .controlWord → m.kind ≠ .letter) := by
  have hcomment : l.kind ≠ .comment := by
    intro hkind
    simp [Lexeme.isTidy, hkind] at hl
  have hback : l ≠ ⟨.other, ['\\']⟩ := by
    rintro rfl
    exact absurd hl (by decide)
  simp [apart_iff_of_proper hm, hcomment, hback]

/-- What may come to stand in the place of `rest` without being taken in by the
lexeme in front: it starts with the same kind of lexeme, or with neither a blank nor
a letter. -/
def KeepsApart (rest' rest : List Lexeme) : Prop :=
  ∀ m ∈ rest'.head?, (m.kind ≠ .blank ∧ m.kind ≠ .letter) ∨
    ∃ l ∈ rest.head?, l.kind = m.kind

theorem IsCut.head_proper {ls : List Lexeme} (h : IsCut ls) {m : Lexeme}
    (hm : m ∈ ls.head?) :
    m.Proper :=
  (lex_eq_iff.mp h).2.1 m (List.mem_of_mem_head? hm)

/-- A tidy lexeme can be cut off in front of what keeps apart from it. -/
theorem IsCut.cons {l : Lexeme} {rest : List Lexeme} (h : IsCut rest)
    (hproper : l.Proper) (hl : l.isTidy = true) (hrest : ∀ m ∈ rest.head?,
      (l.kind = .blank → m.kind ≠ .blank) ∧
        (l.kind = .controlWord → m.kind ≠ .letter)) :
    IsCut (l :: rest) :=
  isCut_cons.mpr ⟨hproper,
    fun m hm => (apart_iff hl (h.head_proper hm)).mpr (hrest m hm), h⟩

/-- A lexeme may change into one of its kind and what follows it into what keeps
apart. -/
theorem IsCut.replace {l l' : Lexeme} {rest rest' : List Lexeme} (h : IsCut (l :: rest))
    (h' : IsCut rest') (hrest : KeepsApart rest' rest) (hl : l.isTidy = true)
    (hkind : l'.kind = l.kind) (hproper : l'.Proper) (hl' : l'.isTidy = true) :
    IsCut (l' :: rest') := by
  obtain ⟨-, hapart, hcut⟩ := isCut_cons.mp h
  refine h'.cons hproper hl' fun m hm => ?_
  rw [hkind]
  rcases hrest m hm with ⟨hblank, hletter⟩ | ⟨n, hn, hsame⟩
  · exact ⟨fun _ => hblank, fun _ => hletter⟩
  · rw [← hsame]
    exact (apart_iff hl (hcut.head_proper hn)).mp (hapart n hn)

theorem isTidy_of_blank {l : Lexeme} (hl : l.Proper) (h : l.kind = .blank) :
    l.isTidy = true := by
  obtain ⟨kind, text⟩ := l
  obtain rfl : kind = .blank := h
  have hback : '\\' ∉ text := fun hmem => absurd (hl.2 _ hmem) (by decide)
  have htext : ∀ cs, '\\' ∈ cs → text ≠ cs := fun cs hcs heq => hback (heq ▸ hcs)
  simp [Lexeme.isTidy, htext]

/-- A tree that is read again starts with a lexeme of the same kind. -/
theorem Tree.Tidy.head_rewritten {t : Tree} (h : t.Tidy table) :
    ∃ l ls l' ls', t.lexemes = l :: ls ∧ (t.rewritten table).lexemes = l' :: ls' ∧
      l.kind = l'.kind := by
  cases t with
  | text chars =>
      simp only [Tree.Tidy] at h
      obtain ⟨c, cs, rfl⟩ := List.exists_cons_of_ne_nil h.1
      exact ⟨_, _, _, _, rfl, rfl, rfl⟩
  | gap lexeme =>
      simp only [Tree.Tidy] at h
      exact ⟨_, _, _, _, rfl, rfl, h⟩
  | stray => exact ⟨_, _, _, _, rfl, rfl, rfl⟩
  | group _ _ => simp only [Tree.Tidy] at h
  | command head args missing => exact ⟨_, _, _, _, rfl, rfl, rfl⟩

/-- Tidy trees that are written anew keep apart what stands in front of them. -/
theorem keepsApart_trees {rest rest' : List Lexeme}
    (h : KeepsApart rest' rest) {ts : List Tree} (hts : treesTidy table ts) :
    KeepsApart (treesLexemes (treesRewritten table ts) ++ rest')
      (treesLexemes ts ++ rest) := by
  cases ts with
  | nil => exact h
  | cons t ts =>
      simp only [treesTidy] at hts
      obtain ⟨l, ls, l', ls', hlexemes, hlexemes', hkind⟩ := hts.1.head_rewritten
      intro m hm
      rw [treesRewritten, treesLexemes, hlexemes'] at hm
      rw [treesLexemes, hlexemes]
      obtain rfl : l' = m := by simpa using hm
      exact .inr ⟨l, rfl, hkind⟩

/-- What is neither blank nor a letter keeps apart what stands in front of it. -/
theorem keepsApart_cons {l : Lexeme} (hblank : l.kind ≠ .blank)
    (hletter : l.kind ≠ .letter) (rest' rest : List Lexeme) :
    KeepsApart (l :: rest') rest := by
  intro m hm
  obtain rfl : l = m := by simpa using hm
  exact .inl ⟨hblank, hletter⟩

/-- A tidy character that is neither blank nor part of a control word can be cut off
in front of anything. -/
theorem IsCut.start {rest : List Lexeme} (h : IsCut rest) {c : Char}
    (hc : (Lexeme.start c).isTidy = true) (hblank : Lexeme.startKind c ≠ .blank) :
    IsCut (Lexeme.start c :: rest) :=
  h.cons (Lexeme.start_proper c) hc fun _ _ =>
    ⟨fun hkind => absurd hkind hblank,
      fun hkind => absurd hkind (startKind_ne_controlWord c)⟩

/-- Text without backslashes is cut into its characters. -/
theorem IsCut.chars {rest : List Lexeme} (h : IsCut rest) {chars : List Char}
    (hchars : ∀ c ∈ chars, (Lexeme.startKind c).isText = true ∧ c ≠ '\\') :
    IsCut (charLexemes chars ++ rest) := by
  induction chars with
  | nil => exact h
  | cons c cs ih =>
      obtain ⟨hkind, hback⟩ := hchars c (by simp)
      refine (ih fun d hd => hchars d (by simp [hd])).start ?_ ?_
      · rcases LexemeKind.eq_of_isText hkind with hkind | hkind | hkind <;>
          simp [Lexeme.isTidy, Lexeme.start, hkind, hback]
      · rcases LexemeKind.eq_of_isText hkind with hkind | hkind | hkind <;> simp [hkind]

/-- What encloses an argument when it is written: braces, the brackets that it had,
or nothing if it is a digit or had nothing before. -/
theorem writtenEnclosure_cases (table : CommandTable) (name : String)
    (enclosure : Enclosure) (body : List Tree) :
    writtenEnclosure table name enclosure body = .braces true ∨
      (∃ closed, writtenEnclosure table name enclosure body = .brackets closed ∧
        enclosure = .brackets closed) ∨
      writtenEnclosure table name enclosure body = .bare ∧
        ((∃ c, body = [.text [c]] ∧ Text.isDigit c = true) ∨
          enclosure = .bare ∧ dropsMarks table name = false) := by
  cases hname : dropsMarks table name with
  | true =>
      rcases writtenEnclosure_of_dropsMarks hname enclosure body
        with h | ⟨c, hbody, h, hdigit⟩
      · exact .inl h
      · exact .inr (.inr ⟨h, .inl ⟨c, hbody, hdigit⟩⟩)
  | false =>
      rw [writtenEnclosure_of_keepsMarks hname]
      cases enclosure with
      | bare => exact .inr (.inr ⟨rfl, .inr ⟨rfl, rfl⟩⟩)
      | braces _ => exact .inl rfl
      | brackets closed => exact .inr (.inl ⟨closed, rfl, rfl⟩)

/-- Where the digits of all scripts lie among the characters, as far as it matters
which others do. -/
theorem toNat_of_isDigit {c : Char} (h : Text.isDigit c = true) :
    (0x30 ≤ c.toNat ∧ c.toNat < 0x3A) ∨ (0xA0 < c.toNat ∧ c.toNat < 0x1680) ∨
      (0x1680 < c.toNat ∧ c.toNat < 0x2000) ∨ (0x205F < c.toNat ∧ c.toNat < 0x3000) ∨
      0x3000 < c.toNat := by
  have hzeros : ∀ z ∈ Text.decimalZeros, z = 0x30 ∨ (0xA0 < z ∧ z + 10 ≤ 0x1680) ∨
      (0x1680 < z ∧ z + 10 ≤ 0x2000) ∨ 0x3000 < z := by decide
  have hothers : ∀ r ∈ Text.otherDigits, (0xA0 < r.1 ∧ r.2 < 0x1680) ∨
      (0x1680 < r.1 ∧ r.2 < 0x2000) ∨ (0x205F < r.1 ∧ r.2 < 0x3000) ∨ 0x3000 < r.1 := by
        decide
  simp only [Text.isDigit, Text.decimalValue?, Option.isSome_map, List.find?_isSome,
    Bool.or_eq_true, Bool.and_eq_true, decide_eq_true_eq, List.any_eq_true] at h
  rcases h with ⟨z, hz, hlow, hhigh⟩ | ⟨r, hr, hlow, hhigh⟩
  · have := hzeros z hz
    omega
  · have := hothers r hr
    omega

theorem startKind_ne_letter_of_isDigit {c : Char} (h : Text.isDigit c = true) :
    Lexeme.startKind c ≠ .letter := by
  intro hletter
  have hrange := toNat_of_isAlpha (isAlpha_of_startKind hletter)
  have := toNat_of_isDigit h
  omega

/-- A digit is read as text. -/
theorem isText_of_isDigit {c : Char} (h : Text.isDigit c = true) :
    (Lexeme.startKind c).isText = true ∧ c ≠ '\\' := by
  have hrange := toNat_of_isDigit h
  have hne {d : Char}
      (hd : d.toNat < 0x30 ∨ (0x3A ≤ d.toNat ∧ d.toNat < 0x80)) : c ≠ d := by
    rintro rfl
    omega
  have hblank : Text.isBlank c = false := by
    simp only [Text.isBlank, Bool.or_eq_false_iff, Bool.and_eq_false_iff,
      beq_eq_false_iff_ne, decide_eq_false_iff_not]
    omega
  refine ⟨?_, hne (by decide)⟩
  rw [Lexeme.startKind, if_neg (hne (by decide)), if_neg (by simp [hblank]),
    if_neg (hne (by decide)), if_neg (hne (by decide)), if_neg (hne (by decide)),
    if_neg (hne (by decide))]
  split_ifs <;> rfl

mutual

/-- A tidy tree that is written anew is cut as it stands. -/
theorem Tree.isCut_rewritten : (t : Tree) → (rest rest' : List Lexeme) → t.Tidy table →
    IsCut (t.lexemes ++ rest) → IsCut rest' → KeepsApart rest' rest →
      IsCut ((t.rewritten table).lexemes ++ rest')
  | .text chars, _, _, htidy, _, h', _ => by
      simp only [Tree.Tidy] at htidy
      exact h'.chars htidy.2
  | .gap lexeme, _, _, htidy, h, h', hrest => by
      simp only [Tree.Tidy] at htidy
      have hproper : lexeme.Proper := (isCut_cons.mp h).1
      exact IsCut.replace h h' hrest (isTidy_of_blank hproper htidy) htidy.symm
        (by simp [Lexeme.Proper, Text.isBlank]) (by decide)
  | .stray, _, _, _, _, h', _ => h'.start (by decide) (by decide)
  | .group _ _, _, _, htidy, _, _, _ => by simp only [Tree.Tidy] at htidy
  | .command head args _, rest, rest', htidy, h, h', hrest => by
      simp only [Tree.Tidy] at htidy
      obtain ⟨hproper, hhead, -, hargs⟩ := htidy
      have hcut : IsCut (argsLexemes args ++ rest) := (isCut_cons.mp h).2.2
      obtain ⟨hcut', hkeeps⟩ :=
        argsCut_rewritten head.name args rest rest' hargs hcut h' hrest
      exact IsCut.replace h hcut' hkeeps hhead rfl hproper hhead

/-- Trees that are read again are cut from their text as they were before. -/
theorem treesCut_rewritten :
    (ts : List Tree) → (rest rest' : List Lexeme) → treesTidy table ts →
      IsCut (treesLexemes ts ++ rest) → IsCut rest' → KeepsApart rest' rest →
      IsCut (treesLexemes (treesRewritten table ts) ++ rest')
  | [], _, _, _, _, h', _ => h'
  | t :: ts, rest, rest', htidy, h, h', hrest => by
      simp only [treesTidy] at htidy
      simp only [treesRewritten, treesLexemes, List.append_assoc] at h ⊢
      exact t.isCut_rewritten _ _ htidy.1 h
        (treesCut_rewritten ts rest rest' htidy.2 h.right_of_append h' hrest)
        (keepsApart_trees hrest htidy.2)

/-- Tidy arguments that are written anew are cut as they stand. -/
theorem argsCut_rewritten (name : String) :
    (args : List Arg) → (rest rest' : List Lexeme) → argsTidy table name args →
    IsCut (argsLexemes args ++ rest) → IsCut rest' → KeepsApart rest' rest →
      IsCut (argsLexemes (argsRewritten table name args) ++ rest') ∧
        KeepsApart (argsLexemes (argsRewritten table name args) ++ rest')
          (argsLexemes args ++ rest)
  | [], _, _, _, _, h', hrest => ⟨h', hrest⟩
  | .mk before enclosure body :: args, rest, rest', htidy, h, h', hrest => by
      simp only [argsTidy] at htidy
      obtain ⟨hbody, hargs, -, hbare⟩ := htidy
      simp only [argsRewritten, argsLexemes, List.nil_append, List.append_assoc] at h ⊢
      replace h := h.right_of_append.right_of_append
      obtain ⟨hcut, hkeeps⟩ := argsCut_rewritten name args rest rest' hargs
        h.right_of_append.right_of_append h' hrest
      -- The argument is written in braces, in brackets, or bare as a digit or as a
      -- delimiter.
      rcases writtenEnclosure_cases table name enclosure body with
        hwritten | ⟨closed, hwritten, rfl⟩ | ⟨hwritten, ⟨c, rfl, hdigit⟩ | ⟨rfl, hname⟩⟩
      all_goals rw [hwritten]
      · have hinside := treesCut_rewritten body _ _ hbody h
          (hcut.start (c := '}') rfl (by decide))
          (keepsApart_cons (by decide) (by decide) _ _)
        exact ⟨hinside.start (by decide) (by decide),
          keepsApart_cons (by decide) (by decide) _ _⟩
      · have hinside : IsCut (treesLexemes (treesRewritten table body) ++
            (charLexemes (Enclosure.brackets closed).closing ++
              (argsLexemes (argsRewritten table name args) ++ rest'))) := by
          cases closed with
          | true =>
              exact treesCut_rewritten body _ _ hbody h
                (hcut.start (c := ']') rfl (by decide))
                (keepsApart_cons (by decide) (by decide) _ _)
          | false => exact treesCut_rewritten body _ _ hbody h hcut hkeeps
        exact ⟨hinside.start (by decide) (by decide),
          keepsApart_cons (by decide) (by decide) _ _⟩
      · simp only [treesTidy, Tree.Tidy, and_true] at hbody
        have htext := (hbody.2 c (by simp)).1
        refine ⟨hcut.chars hbody.2,
          keepsApart_cons ?_ (startKind_ne_letter_of_isDigit hdigit) _ _⟩
        intro hblank
        simp [Lexeme.start] at hblank
        simp [hblank, LexemeKind.isText] at htext
      · obtain ⟨-, l, rfl, hlexemes, hdelimiter, hletter⟩ := hbare hname rfl
        have hinside := treesCut_rewritten [atom l] _ _ hbody h hcut hkeeps
        refine ⟨hinside, ?_⟩
        simp only [treesRewritten, rewritten_atom, treesLexemes, hlexemes]
        refine keepsApart_cons (fun hblank => ?_) hletter _ _
        simp [isDelimiter, hblank] at hdelimiter

end

/-! ### The source -/

/-- A row of trees is parsed from its text if it is a reading and its lexemes are
those of the text. -/
theorem parse_treesChars {ts : List Tree} (hreads : treesRead table .top .math [] ts)
    (hcut : IsCut (treesLexemes ts)) :
    parse table (String.ofList (treesChars ts)) = ⟨treesLexemes ts, ts⟩ := by
  have hlex : lex (treesChars ts) = treesLexemes ts := by
    rw [← lexemesText_treesLexemes]
    exact hcut
  simp only [parse, String.toList_ofList, hlex, readTrees_treesLexemes hreads]

/-- The trees of a tidy source are tidy. -/
theorem treesTidy_parse (hregular : table.Regular) {source : String}
    (h : sourceIsTidy table source = true) :
    treesTidy table (parse table source).trees := by
  rw [sourceIsTidy, Bool.and_eq_true, List.all_eq_true] at h
  refine treesTidy_of_read hregular _ 0 .top .math [] (parse_reads table source) ?_ h.2
  rw [parse_lexemes]
  exact fun l hl => ⟨lex_proper _ l hl, h.1 l hl⟩

/-- **What is written for a tidy source is parsed** to the trees that are read
again. -/
theorem parse_written (hregular : table.Regular) {source : String}
    (h : sourceIsTidy table source = true) :
    (parse table (String.ofList
      (nodesWritten table (parse table source).nodes))).trees =
      treesRewritten table (parse table source).trees := by
  have htidy := treesTidy_parse hregular h
  have hreads := treesRead_rewritten hregular _ .top .math [] [] htidy
    (parse_reads table source)
    (Replaces.end_of_source [])
  have hcut := treesCut_rewritten _ [] [] htidy
    (by rw [parse_lexemes, List.append_nil]; exact isCut_lex _) isCut_nil
      (by simp [KeepsApart])
  rw [List.append_nil] at hcut
  rw [Document.nodes, ← treesChars_rewritten _ 0 htidy, parse_treesChars hreads hcut]

end Formulary.Markup

namespace Formulary.Variable

open Formulary.Markup

variable {table : CommandTable}

/-- Sources of the same depth whose nodes are written alike are rebuilt alike. -/
theorem rebuild_congr {source source' : String}
    (hdepth : (parse table source).depth = (parse table source').depth)
    (hwritten : nodesWritten table (parse table source).nodes =
      nodesWritten table (parse table source').nodes) :
    rebuild table source = rebuild table source' := by
  simp only [rebuild, parseWithin, hdepth]
  split_ifs
  · exact congrArg (Except.ok ∘ String.ofList) hwritten
  · rfl

/-- Sources of the same depth whose nodes have the same names have the same
variables. -/
theorem variablesOfSource_congr {source source' : String}
    (hdepth : (parse table source).depth = (parse table source').depth)
    (hnames : nodesNames table none (parse table source).nodes =
      nodesNames table none (parse table source').nodes) :
    variablesOfSource table source = variablesOfSource table source' := by
  simp only [variablesOfSource, parseWithin, hdepth]
  split_ifs
  · simp only [variablesOfNodes, hnames]
  · rfl

/-- **Writing a tidy source anew loses nothing that matters.**  What is written
parses to the nodes of the source, but for places, the text of blank space and the
marks around the arguments of scripts and decorators. So writing it once more changes
nothing, and its variables are those of the source. -/
theorem tidy_source_written (source : String)
    (h : sourceIsTidy .standard source = true) :
    let written := String.ofList (nodesWritten .standard (parse .standard source).nodes)
    nodesOutline .standard (parse .standard written).nodes =
        nodesOutline .standard (parse .standard source).nodes ∧
      nodesWritten .standard (parse .standard written).nodes = written.toList ∧
      rebuild .standard written = rebuild .standard source ∧
      variablesOfSource .standard written = variablesOfSource .standard source := by
  intro written
  have htrees : (parse .standard written).trees =
      treesRewritten .standard (parse .standard source).trees :=
    parse_written CommandTable.standard_regular h
  have houtline : nodesOutline .standard (parse .standard written).nodes =
      nodesOutline .standard (parse .standard source).nodes := by
    rw [Document.nodes, htrees]
    exact treesOutline_rewritten _ 0 0 (treesTidy_parse CommandTable.standard_regular h)
  have hwritten : nodesWritten .standard (parse .standard written).nodes =
      nodesWritten .standard (parse .standard source).nodes := by
    rw [← nodesWritten_outline, houtline, nodesWritten_outline]
  have hnames : nodesNames .standard none (parse .standard written).nodes =
      nodesNames .standard none (parse .standard source).nodes := by
    rw [← nodesNames_outline, houtline, nodesNames_outline]
  have hdepth : (parse .standard written).depth = (parse .standard source).depth := by
    rw [Document.depth, htrees, treesDepth_rewritten]
    rfl
  refine ⟨houtline, ?_, ?_, ?_⟩
  · rw [hwritten, String.toList_ofList]
  · exact rebuild_congr hdepth hwritten
  · exact variablesOfSource_congr hdepth hnames

/-- A source with a script of one digit, decorators without braces, a blank of two
characters, brackets and braces that are left open and a brace too many. -/
theorem tidy_source_written_open :
    let source := "\x7d\\hat x_\x7b2\x7d^\\bar y \n\\left(\\text\x7ba b\x7d\\sqrt[n"
    sourceIsTidy .standard source = true ∧
      String.ofList (nodesWritten .standard (parse .standard source).nodes) =
        "\x7d\\hat\x7bx\x7d_2^\x7b\\bar\x7by\x7d\x7d \\left(\\text\x7ba b\x7d\\sqrt[n" ∧
      variablesOfSource .standard
          "\x7d\\hat\x7bx\x7d_2^\x7b\\bar\x7by\x7d\x7d \\left(\\text\x7ba b\x7d\\sqrt[n" =
        variablesOfSource .standard source := by
  intro source
  have htidy : sourceIsTidy .standard source = true := by decide +kernel
  have hwritten : String.ofList
      (nodesWritten .standard (parse .standard source).nodes) =
      "\x7d\\hat\x7bx\x7d_2^\x7b\\bar\x7by\x7d\x7d \\left(\\text\x7ba b\x7d\\sqrt[n" := by
    decide +kernel
  refine ⟨htidy, hwritten, ?_⟩
  rw [← hwritten]
  exact (tidy_source_written source htidy).2.2.2

end Formulary.Variable
