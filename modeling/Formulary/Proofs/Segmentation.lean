import Formulary.Proofs.Rewriting
import Formulary.Proofs.Scanning

/-!
# Sources and their tokens

Every source falls into tokens in one way.  The scan by patterns comes to its end on
every source, its tokens cover the source without a gap, and it is known without any
scan which lists of lexemes come out of it: those in which every text is one of its
kind and no lexeme could have taken in what follows it.

* `LexemeKind.Allows` says which texts are of a kind, and `Lexeme.MayPrecede` which
  lexemes may follow each other.
* `isCut_iff` tells by the two whether lexemes are those of their own text.
* `tokens_segment_source` puts the scan and the lexemes together.
-/

namespace Formulary.Markup

/-! ### The texts of a kind -/

/-- A text is one of a kind of lexemes.  Most kinds are of the single characters that
open them. -/
def LexemeKind.Allows (kind : LexemeKind) (text : List Char) : Prop :=
  match kind with
  | .comment => ∃ cs, text = '%' :: cs ∧ '\n' ∉ cs
  | .blank => text ≠ [] ∧ ∀ c ∈ text, Text.isBlank c
  | .controlWord => ∃ cs, text = '\\' :: cs ∧ cs ≠ [] ∧ ∀ c ∈ cs, c.isAlpha
  | .controlSymbol => ∃ c, text = ['\\', c] ∧ ¬ c.isAlpha
  | kind => ∃ c, text = [c] ∧ kind.Opens c

theorem proper_iff_allows (l : Lexeme) : l.Proper ↔ l.kind.Allows l.text := by
  obtain ⟨kind, text⟩ := l
  cases kind <;> simp only [Lexeme.Proper, LexemeKind.Allows, startKind_eq_iff]

/-! ### Neighbours -/

/-- One lexeme may stand in front of another: a comment only in front of a newline, a
blank in front of no other blank, a control word in front of no letter, and a lone
backslash in front of nothing at all. -/
def Lexeme.MayPrecede (l next : Lexeme) : Prop :=
  (l.kind = .comment → next.text.head? = some '\n') ∧
    (l.kind = .blank → next.kind ≠ .blank) ∧
    (l.kind = .controlWord → next.kind ≠ .letter) ∧ l ≠ ⟨.other, ['\\']⟩

/-- **Lexemes are those of their own text** if every text is one of its kind and
neighbours may stand so. -/
theorem isCut_iff {ls : List Lexeme} :
    IsCut ls ↔ (∀ l ∈ ls, l.kind.Allows l.text) ∧ ls.IsChain Lexeme.MayPrecede := by
  simp only [IsCut, lex_eq_iff, true_and, ← proper_iff_allows]
  refine and_congr_right fun hproper => ?_
  exact List.IsChain.iff_of_mem_imp fun l m _ hm => apart_iff_of_proper (hproper m hm)

/-! ### Segmentation -/

/-- A token in a row stands behind the texts of those in front of it. -/
theorem start_of_placeFrom_eq {start : Nat} {ls : List Lexeme}
    {before rest : List Token} {t : Token}
    (h : placeFrom start ls = before ++ t :: rest) :
    t.start = start + (lexemesText (before.map Token.lexeme)).length := by
  induction before generalizing start ls with
  | nil =>
      cases ls with
      | nil => simp [placeFrom] at h
      | cons l ls =>
          obtain ⟨rfl, -⟩ := List.cons.inj h
          rfl
  | cons u before ih =>
      cases ls with
      | nil => simp [placeFrom] at h
      | cons l ls =>
          obtain ⟨rfl, htail⟩ := List.cons.inj h
          rw [ih htail, List.map_cons, lexemesText_cons,
            List.length_append, Nat.add_assoc]

theorem length_tokenize (source : String) :
    (tokenize source).length = (lex source.toList).length := by
  rw [← map_lexeme_tokenize, List.length_map]

/-- **Every source falls into tokens, and in one way.**  The scan by patterns goes on
for one round for each token and then stands at the end of the source, with the
tokens and the end mark behind them.  No token is empty, their texts in a row are the
source, and each stands where the texts in front of it end.  Lexemes are those of
their own text if and only if every text is one of its kind and neighbours may stand
so. -/
theorem tokens_segment_source (source : String) :
    (∀ rounds, (Scan.after source rounds).position < source.length ↔
        rounds < (tokenize source).length) ∧
      (Scan.after source (tokenize source).length).marks =
        (tokenize source).map Token.mark ++ [⟨none, source.length⟩] ∧
      (∀ t ∈ tokenize source, t.lexeme.text ≠ []) ∧
      lexemesText ((tokenize source).map Token.lexeme) = source.toList ∧
      (∀ before t rest, tokenize source = before ++ t :: rest →
        t.start = (lexemesText (before.map Token.lexeme)).length) ∧
      ∀ ls, (tokenize (String.ofList (lexemesText ls))).map Token.lexeme = ls ↔
        (∀ l ∈ ls, l.kind.Allows l.text) ∧ ls.IsChain Lexeme.MayPrecede := by
  refine ⟨?_, ?_, ?_, ?_, ?_, ?_⟩
  · intro rounds
    rw [Scan.position_after_lt_iff, length_tokenize]
  · rw [Scan.after_eq, length_tokenize, List.take_length,
      Scan.marks_found, Descent.marksOf, lexemesText_lex, String.length_toList]
    rfl
  · intro t ht
    have hmem : t.lexeme ∈ lex source.toList := mem_lex_iff.mpr ⟨t, ht, rfl⟩
    exact (lex_proper source.toList _ hmem).text_ne_nil
  · rw [map_lexeme_tokenize, lexemesText_lex]
  · intro before t rest h
    rw [start_of_placeFrom_eq h, Nat.zero_add]
  · intro ls
    rw [map_lexeme_tokenize, String.toList_ofList]
    exact isCut_iff

end Formulary.Markup
