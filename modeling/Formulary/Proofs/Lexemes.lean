import Mathlib.Data.List.Chain
import Formulary.Markup.Lexeme

/-!
# Lexemes and the text they are cut from

The cutting of a text into lexemes loses nothing, and it can be told without the
cutting itself which lists of lexemes it makes: those in which every lexeme has a
text of its kind and none could take in the character after it.  Two things follow
that all later arguments about reading rest on.

* `lex_eq_iff` recognises the lexemes of a text.
* `lex_append` allows a text to be cut between two of its lexemes: both pieces have
  the lexemes they had before.
-/

namespace Formulary.Markup

/-- The characters that open a lexeme of a kind.  None opens a control sequence,
which begins as a lone backslash. -/
def LexemeKind.Opens (kind : LexemeKind) (c : Char) : Prop :=
  match kind with
  | .comment => c = '%'
  | .blank => Text.isBlank c
  | .controlWord => False
  | .controlSymbol => False
  | .openBrace => c = '{'
  | .closeBrace => c = '}'
  | .subscript => c = '_'
  | .superscript => c = '^'
  | .letter => c.isAlpha
  | .digit => c.isDigit
  | .other => c ∉ ['%', '{', '}', '_', '^'] ∧ ¬ Text.isBlank c ∧
      ¬ c.isAlpha ∧ ¬ c.isDigit

namespace Lexeme

theorem opens_startKind (c : Char) : (startKind c).Opens c := by
  unfold startKind
  split_ifs <;> simp_all [LexemeKind.Opens]

/-- A character opens lexemes of its kind. -/
theorem opens_of_startKind {c : Char} {kind : LexemeKind}
    (h : startKind c = kind) : kind.Opens c :=
  h ▸ opens_startKind c

/-- The text of a lexeme is one that its kind allows. -/
def Proper (l : Lexeme) : Prop :=
  match l.kind with
  | .comment => ∃ cs, l.text = '%' :: cs ∧ '\n' ∉ cs
  | .blank => l.text ≠ [] ∧ ∀ c ∈ l.text, Text.isBlank c
  | .controlWord => ∃ cs, l.text = '\\' :: cs ∧ cs ≠ [] ∧ ∀ c ∈ cs, c.isAlpha
  | .controlSymbol => ∃ c, l.text = ['\\', c] ∧ ¬ c.isAlpha
  | kind => ∃ c, l.text = [c] ∧ startKind c = kind

/-- One lexeme may stand in front of another: it cannot take in the first character
of it. -/
def Apart (l next : Lexeme) : Prop :=
  ∀ c ∈ next.text.head?, l.extend? c = none

theorem start_proper (c : Char) : (start c).Proper := by
  cases hkind : startKind c with
  | comment =>
      obtain rfl : c = '%' := opens_of_startKind hkind
      exact ⟨[], rfl, List.not_mem_nil⟩
  | blank =>
      have hc : Text.isBlank c = true := opens_of_startKind hkind
      simp only [Proper, start, hkind]
      exact ⟨List.cons_ne_nil c [], by simpa using hc⟩
  -- No single character is a control sequence, and every other kind is one of single
  -- characters.
  | controlWord => exact False.elim (opens_of_startKind hkind)
  | controlSymbol => exact False.elim (opens_of_startKind hkind)
  | _ =>
      simp only [Proper, start, hkind]
      exact ⟨c, rfl, hkind⟩

/-- A lexeme that takes in a character stays proper, and the character goes to the
end of its text. -/
theorem extend?_proper {l longer : Lexeme} {c : Char} (hl : l.Proper)
    (h : l.extend? c = some longer) :
    longer.Proper ∧ longer.text = l.text ++ [c] := by
  obtain ⟨kind, text⟩ := l
  simp only [extend?, Option.map_eq_some_iff] at h
  obtain ⟨kind', hkind, rfl⟩ := h
  refine ⟨?_, rfl⟩
  cases kind with
  | comment =>
      obtain ⟨cs, rfl, hcs⟩ := hl
      simp only [extendKind?, Option.ite_none_left_eq_some, Option.some.injEq] at hkind
      obtain ⟨hc, rfl⟩ := hkind
      exact ⟨cs ++ [c], rfl, by simp [hcs, Ne.symm hc]⟩
  | blank =>
      simp only [extendKind?, Option.ite_none_right_eq_some, Option.some.injEq] at hkind
      obtain ⟨hc, rfl⟩ := hkind
      refine ⟨by simp, fun d hd => ?_⟩
      rcases List.mem_append.mp hd with hd | hd
      · exact hl.2 d hd
      · rwa [List.mem_singleton.mp hd]
  | controlWord =>
      obtain ⟨cs, rfl, -, hcs⟩ := hl
      simp only [extendKind?, Option.ite_none_right_eq_some, Option.some.injEq] at hkind
      obtain ⟨hc, rfl⟩ := hkind
      refine ⟨cs ++ [c], rfl, by simp, fun d hd => ?_⟩
      rcases List.mem_append.mp hd with hd | hd
      · exact hcs d hd
      · rwa [List.mem_singleton.mp hd]
  | other =>
      simp only [extendKind?, Option.ite_none_right_eq_some, Option.some.injEq] at hkind
      obtain ⟨rfl, rfl⟩ := hkind
      by_cases hc : c.isAlpha
      · simp [Proper, hc]
      · simp [Proper, hc]
  | _ => simp [extendKind?] at hkind

theorem Proper.text_ne_nil {l : Lexeme} (hl : l.Proper) : l.text ≠ [] := by
  unfold Proper at hl
  split at hl
  · obtain ⟨cs, h, -⟩ := hl
    simp [h]
  · exact hl.1
  · obtain ⟨cs, h, -⟩ := hl
    simp [h]
  · obtain ⟨c, h, -⟩ := hl
    simp [h]
  · obtain ⟨c, h, -⟩ := hl
    simp [h]

end Lexeme

/-! ### What the cutting makes -/

@[simp] theorem lexemesText_nil : lexemesText [] = [] := rfl

@[simp] theorem lexemesText_cons (l : Lexeme) (ls : List Lexeme) :
    lexemesText (l :: ls) = l.text ++ lexemesText ls := rfl

@[simp] theorem lexemesText_append (ls ms : List Lexeme) :
    lexemesText (ls ++ ms) = lexemesText ls ++ lexemesText ms :=
  List.flatMap_append

/-- A character that extends the lexeme at hand becomes part of it. -/
theorem lexFrom_of_extend {l longer : Lexeme} {c : Char} (h : l.extend? c = some longer)
    (cs : List Char) : lexFrom l (c :: cs) = lexFrom longer cs := by
  rw [lexFrom, h]

/-- A character that does not extend the lexeme at hand starts the next one. -/
theorem lexFrom_of_extend_none {l : Lexeme} {c : Char} (h : l.extend? c = none)
    (cs : List Char) : lexFrom l (c :: cs) = l :: lexFrom (Lexeme.start c) cs := by
  rw [lexFrom, h]

/-- The first lexeme that comes out is the one at hand or grows from it. -/
theorem lexFrom_head (l : Lexeme) (hl : l.Proper) (cs : List Char) :
    ∃ first rest, lexFrom l cs = first :: rest ∧ l.text <+: first.text := by
  induction cs generalizing l with
  | nil => exact ⟨l, [], rfl, List.prefix_rfl⟩
  | cons c cs ih =>
      cases h : l.extend? c with
      | none => exact ⟨l, _, lexFrom_of_extend_none h cs, List.prefix_rfl⟩
      | some longer =>
          obtain ⟨hproper, htext⟩ := Lexeme.extend?_proper hl h
          obtain ⟨first, rest, heq, hprefix⟩ := ih longer hproper
          refine ⟨first, rest, (lexFrom_of_extend h cs).trans heq, ?_⟩
          exact ((htext ▸ List.prefix_append l.text [c]).trans hprefix)

/-- Nothing is lost: the lexemes spell what was read. -/
theorem lexemesText_lexFrom (l : Lexeme) (hl : l.Proper) (cs : List Char) :
    lexemesText (lexFrom l cs) = l.text ++ cs := by
  induction cs generalizing l with
  | nil => simp [lexFrom]
  | cons c cs ih =>
      cases h : l.extend? c with
      | none =>
          rw [lexFrom_of_extend_none h, lexemesText_cons, ih _ (Lexeme.start_proper c)]
          rfl
      | some longer =>
          obtain ⟨hproper, htext⟩ := Lexeme.extend?_proper hl h
          rw [lexFrom_of_extend h, ih longer hproper, htext, List.append_assoc]
          rfl

theorem lexFrom_proper (l : Lexeme) (hl : l.Proper) (cs : List Char) :
    ∀ m ∈ lexFrom l cs, m.Proper := by
  induction cs generalizing l with
  | nil => simpa [lexFrom] using hl
  | cons c cs ih =>
      cases h : l.extend? c with
      | none =>
          rw [lexFrom_of_extend_none h]
          exact List.forall_mem_cons.mpr ⟨hl, ih _ (Lexeme.start_proper c)⟩
      | some longer =>
          rw [lexFrom_of_extend h]
          exact ih longer (Lexeme.extend?_proper hl h).1

theorem lexFrom_apart (l : Lexeme) (hl : l.Proper) (cs : List Char) :
    (lexFrom l cs).IsChain Lexeme.Apart := by
  induction cs generalizing l with
  | nil => simp [lexFrom]
  | cons c cs ih =>
      cases h : l.extend? c with
      | none =>
          rw [lexFrom_of_extend_none h]
          refine List.isChain_cons.mpr ⟨?_, ih _ (Lexeme.start_proper c)⟩
          obtain ⟨first, rest, heq, tail, htail⟩ :=
            lexFrom_head _ (Lexeme.start_proper c) cs
          intro m hm d hd
          rw [heq, List.head?_cons, Option.mem_some_iff] at hm
          rw [← hm, ← htail] at hd
          obtain rfl : c = d := by simpa [Lexeme.start] using hd
          exact h
      | some longer =>
          rw [lexFrom_of_extend h]
          exact ih longer (Lexeme.extend?_proper hl h).1

/-- Nothing of a text is lost. -/
theorem lexemesText_lex (cs : List Char) : lexemesText (lex cs) = cs := by
  cases cs with
  | nil => rfl
  | cons c cs => exact lexemesText_lexFrom _ (Lexeme.start_proper c) cs

theorem lex_proper (cs : List Char) : ∀ l ∈ lex cs, l.Proper := by
  cases cs with
  | nil => simp
  | cons c cs => exact lexFrom_proper _ (Lexeme.start_proper c) cs

/-- Neighbouring lexemes of a text do not grow together. -/
theorem lex_apart (cs : List Char) : (lex cs).IsChain Lexeme.Apart := by
  cases cs with
  | nil => simp
  | cons c cs => exact lexFrom_apart _ (Lexeme.start_proper c) cs

/-! ### Recognising the lexemes of a text -/

/-- A lexeme of a kind with runs takes in characters that keep its kind. -/
theorem lexFrom_grow (kind : LexemeKind) (text cs rest : List Char)
    (h : ∀ c ∈ cs, ∀ text, Lexeme.extendKind? ⟨kind, text⟩ c = some kind) :
    lexFrom ⟨kind, text⟩ (cs ++ rest) = lexFrom ⟨kind, text ++ cs⟩ rest := by
  induction cs generalizing text with
  | nil => simp
  | cons c cs ih =>
      have hextend : Lexeme.extend? ⟨kind, text⟩ c = some ⟨kind, text ++ [c]⟩ := by
        simp [Lexeme.extend?, h c (by simp) text]
      rw [List.cons_append, lexFrom_of_extend hextend,
        ih (text ++ [c]) (fun d hd => h d (List.mem_cons_of_mem c hd))]
      simp

/-- A proper lexeme grows from its first character. -/
theorem lex_text_append {l : Lexeme} (hl : l.Proper) (rest : List Char) :
    lex (l.text ++ rest) = lexFrom l rest := by
  obtain ⟨kind, text⟩ := l
  -- Comments, blanks and control words grow from their first characters. A control
  -- symbol takes one more step, and all other lexemes are single characters.
  have hsingle : (∃ c, text = [c] ∧ Lexeme.startKind c = kind) →
      lex (text ++ rest) = lexFrom ⟨kind, text⟩ rest := by
    rintro ⟨c, rfl, rfl⟩
    rfl
  cases kind with
  | comment =>
      obtain ⟨cs, rfl, hcs⟩ := hl
      refine lexFrom_grow .comment ['%'] cs rest fun c hc text => ?_
      have : c ≠ '\n' := fun h => hcs (h ▸ hc)
      simp [Lexeme.extendKind?, this]
  | blank =>
      obtain ⟨hne, hall⟩ := hl
      cases text with
      | nil => exact absurd rfl hne
      | cons c cs =>
          have hc : Text.isBlank c := hall c (by simp)
          have hpercent : c ≠ '%' := by
            rintro rfl
            exact absurd hc (by decide)
          have hstart : Lexeme.start c = ⟨.blank, [c]⟩ := by
            simp [Lexeme.start, Lexeme.startKind, hpercent, hc]
          have hgrow := lexFrom_grow .blank [c] cs rest fun d hd text => by
            simp [Lexeme.extendKind?,
              show Text.isBlank d = true from hall d (by simp [hd])]
          rw [List.cons_append, lex, hstart, hgrow]
          rfl
  | controlWord =>
      obtain ⟨cs, rfl, hne, hcs⟩ := hl
      cases cs with
      | nil => exact absurd rfl hne
      | cons c cs =>
          have hc : c.isAlpha := hcs c (by simp)
          have hfirst : (Lexeme.start '\\').extend? c =
              some ⟨.controlWord, ['\\', c]⟩ := by
            have hstart : Lexeme.start '\\' = ⟨.other, ['\\']⟩ := by decide
            simp [hstart, Lexeme.extend?, Lexeme.extendKind?, hc]
          have hgrow := lexFrom_grow .controlWord ['\\', c] cs rest fun d hd text => by
            simp [Lexeme.extendKind?, show d.isAlpha = true from hcs d (by simp [hd])]
          rw [List.cons_append, List.cons_append, lex, lexFrom_of_extend hfirst, hgrow]
          rfl
  | controlSymbol =>
      obtain ⟨c, rfl, hc⟩ := hl
      have hfirst : (Lexeme.start '\\').extend? c =
          some ⟨.controlSymbol, ['\\', c]⟩ := by
        have hstart : Lexeme.start '\\' = ⟨.other, ['\\']⟩ := by decide
        simp [hstart, Lexeme.extend?, Lexeme.extendKind?, hc]
      exact lexFrom_of_extend hfirst rest
  | _ => exact hsingle hl

/-- Proper lexemes that stand apart are found again in their text. -/
theorem lexFrom_lexemesText {l : Lexeme} {ls : List Lexeme} (hls : ∀ m ∈ ls, m.Proper)
    (hapart : (l :: ls).IsChain Lexeme.Apart) :
    lexFrom l (lexemesText ls) = l :: ls := by
  induction ls generalizing l with
  | nil => rfl
  | cons m ls ih =>
      obtain ⟨hhead, htail⟩ := List.isChain_cons.mp hapart
      have hm : m.Proper := hls m (by simp)
      have hgrow := lex_text_append hm (lexemesText ls)
      obtain ⟨c, cs, htext⟩ := List.exists_cons_of_ne_nil hm.text_ne_nil
      have hnone : l.extend? c = none := hhead m rfl c (by simp [htext])
      rw [htext, List.cons_append, lex] at hgrow
      rw [lexemesText_cons, htext, List.cons_append,
        lexFrom_of_extend_none hnone, hgrow,
        ih (fun n hn => hls n (List.mem_cons_of_mem m hn)) htail]

/-- **The lexemes of a text** are the proper ones that stand apart and cover the
text. -/
theorem lex_eq_iff {cs : List Char} {ls : List Lexeme} :
    lex cs = ls ↔
      lexemesText ls = cs ∧ (∀ l ∈ ls, l.Proper) ∧ ls.IsChain Lexeme.Apart := by
  constructor
  · rintro rfl
    exact ⟨lexemesText_lex cs, lex_proper cs, lex_apart cs⟩
  · rintro ⟨rfl, hproper, hapart⟩
    cases ls with
    | nil => rfl
    | cons l ls =>
        rw [lexemesText_cons, lex_text_append (hproper l (by simp))]
        exact lexFrom_lexemesText
          (fun m hm => hproper m (List.mem_cons_of_mem l hm)) hapart

/-- A text may be cut between two of its lexemes. -/
theorem lex_append {cs : List Char} {ls ms : List Lexeme} (h : lex cs = ls ++ ms) :
    lex (lexemesText ls) = ls ∧ lex (lexemesText ms) = ms := by
  obtain ⟨-, hproper, hapart⟩ := lex_eq_iff.mp h
  constructor
  · exact lex_eq_iff.mpr
      ⟨rfl, fun l hl => hproper l (List.mem_append_left ms hl), hapart.left_of_append⟩
  · exact lex_eq_iff.mpr
      ⟨rfl, fun l hl => hproper l (List.mem_append_right ls hl), hapart.right_of_append⟩

end Formulary.Markup
