import Formulary.Proofs.Descent
import Formulary.Proofs.Places
import Mathlib.Data.List.TakeWhile
import Mathlib.Logic.Function.Iterate

/-!
# Scanning by patterns

A second way to cut a source into lexemes.  There is a list of patterns, one for each
kind of lexeme; at every place the first pattern of the list that matches gives the
next token, with as much text as it can take, and the scan goes on behind it.  The
patterns overlap, so their order matters: a backslash is also another character, and
it counts as one only where no control sequence matches.  A scan that finds no
pattern would stay where it is forever.

## Main definitions

* `Pattern` is a row of parts, each for one character of a class or for all that
  follow of a class.
* `patterns` is the list, and `firstMatch?` the lexeme that it finds at the front of
  a text.
* `Scan` is where a scan stands, and `Scan.round` one search through the list.

## Main statements

* `firstMatch?_eq_head?` says that the patterns find the first lexeme of a text.
* `after_eq` says where a scan stands after some rounds, and `position_after_lt_iff`
  when it comes to an end.
-/

namespace Formulary.Markup

/-! ### Patterns -/

/-- A part of a pattern: one character of a class, or all that follow of a class. -/
inductive PatternPart where
  | one (p : Char → Bool)
  | run (p : Char → Bool)

/-- What a text must start with to have a lexeme of a kind there. -/
structure Pattern where
  parts : List PatternPart
  kind : LexemeKind

/-- What parts of a pattern in a row take from the front of a text.  A run takes all
it can and gives nothing back. -/
def takeParts? : List PatternPart → List Char → Option (List Char)
  | [], _ => some []
  | .one _ :: _, [] => none
  | .one p :: parts, c :: cs => if p c then (takeParts? parts cs).map (c :: ·) else none
  | .run p :: parts, cs => (takeParts? parts (cs.dropWhile p)).map (cs.takeWhile p ++ ·)

/-- The patterns, in the order in which they are tried. -/
def patterns : List Pattern :=
  [⟨[.one (· = '%'), .run (· ≠ '\n')], .comment⟩,
    ⟨[.one Text.isBlank, .run Text.isBlank], .blank⟩,
    ⟨[.one (· = '\\'), .one Char.isAlpha, .run Char.isAlpha], .controlWord⟩,
    ⟨[.one (· = '\\'), .one fun _ => true], .controlSymbol⟩,
    ⟨[.one (· = '{')], .openBrace⟩,
    ⟨[.one (· = '}')], .closeBrace⟩,
    ⟨[.one (· = '_')], .subscript⟩,
    ⟨[.one (· = '^')], .superscript⟩,
    ⟨[.one Char.isAlpha], .letter⟩,
    ⟨[.one Char.isDigit], .digit⟩,
    ⟨[.one fun _ => true], .other⟩]

/-- The lexeme that a pattern finds at the front of a text. -/
def Pattern.match? (p : Pattern) (cs : List Char) : Option Lexeme :=
  (takeParts? p.parts cs).map (⟨p.kind, ·⟩)

/-- The lexeme that the first pattern finds that matches at the front of a text. -/
def firstMatch? (cs : List Char) : Option Lexeme :=
  patterns.findSome? (·.match? cs)

/-! ### The first lexeme of a text -/

/-- A proper lexeme that cannot take in what follows it comes first. -/
theorem head?_lex_of_proper {l : Lexeme} (hl : l.Proper) {rest : List Char}
    (hrest : ∀ c ∈ rest.head?, l.extend? c = none) :
    (lex (l.text ++ rest)).head? = some l := by
  rw [lex_text_append hl]
  cases rest with
  | nil => rfl
  | cons c rest => rw [lexFrom_of_extend_none (hrest c rfl), List.head?_cons]

/-- A lexeme of a kind with runs comes first with all that it can take in. -/
theorem head?_lex_run {kind : LexemeKind} {text cs : List Char} {p : Char → Bool}
    (hproper : Lexeme.Proper ⟨kind, text ++ cs.takeWhile p⟩)
    (hextend : ∀ text c, Lexeme.extendKind? ⟨kind, text⟩ c =
      if p c then some kind else none) :
    (lex (text ++ cs)).head? = some ⟨kind, text ++ cs.takeWhile p⟩ := by
  have hrest : ∀ c ∈ (cs.dropWhile p).head?,
      Lexeme.extend? ⟨kind, text ++ cs.takeWhile p⟩ c = none := by
    intro c hc
    have hstop := List.head?_dropWhile_not p cs
    rw [hc] at hstop
    simp [Lexeme.extend?, hextend, hstop]
  have hfirst := head?_lex_of_proper hproper hrest
  rwa [List.append_assoc, List.takeWhile_append_dropWhile] at hfirst

/-- A percent sign starts a comment in both readings. -/
theorem firstMatch?_percent (cs : List Char) :
    firstMatch? ('%' :: cs) = (lex ('%' :: cs)).head? := by
  have hproper : Lexeme.Proper ⟨.comment, ['%'] ++ cs.takeWhile (· ≠ '\n')⟩ :=
    ⟨_, rfl, fun h => by simpa using List.mem_takeWhile_imp h⟩
  have hextend : ∀ text c, Lexeme.extendKind? ⟨.comment, text⟩ c =
      if decide (c ≠ '\n') then some .comment else none := by
    intro text c
    by_cases hc : c = '\n' <;> simp [Lexeme.extendKind?, hc]
  rw [← List.singleton_append, head?_lex_run hproper hextend]
  simp [firstMatch?, patterns, Pattern.match?, takeParts?]

theorem firstMatch?_blank {c : Char} (hc : Text.isBlank c = true) (cs : List Char) :
    firstMatch? (c :: cs) = (lex (c :: cs)).head? := by
  have hpercent : c ≠ '%' := by
    rintro rfl
    exact absurd hc (by decide)
  have hproper : Lexeme.Proper ⟨.blank, [c] ++ cs.takeWhile Text.isBlank⟩ := by
    refine ⟨by simp, fun d hd => ?_⟩
    rcases List.mem_cons.mp hd with rfl | hd
    · exact hc
    · exact List.mem_takeWhile_imp hd
  rw [← List.singleton_append, head?_lex_run hproper fun _ _ => rfl]
  simp [firstMatch?, patterns, Pattern.match?, takeParts?, hpercent, hc]

/-- A backslash starts a word, a symbol or nothing in both readings. -/
theorem firstMatch?_backslash (cs : List Char) :
    firstMatch? ('\\' :: cs) = (lex ('\\' :: cs)).head? := by
  have hblank : Text.isBlank '\\' = false := by decide
  cases cs with
  | nil => decide
  | cons c cs =>
      cases hc : c.isAlpha with
      | true =>
          have hproper : Lexeme.Proper
              ⟨.controlWord, ['\\', c] ++ cs.takeWhile Char.isAlpha⟩ := by
            refine ⟨_, rfl, by simp, fun d hd => ?_⟩
            rcases List.mem_cons.mp hd with rfl | hd
            · exact hc
            · exact List.mem_takeWhile_imp hd
          have hlex := head?_lex_run hproper fun _ _ => rfl
          rw [List.cons_append, List.singleton_append] at hlex
          rw [hlex]
          simp [firstMatch?, patterns, Pattern.match?, takeParts?, hblank, hc]
      | false =>
          have hproper : Lexeme.Proper ⟨.controlSymbol, ['\\', c]⟩ :=
            ⟨c, rfl, by simp [hc]⟩
          have hlex : (lex ('\\' :: c :: cs)).head? =
              some ⟨.controlSymbol, ['\\', c]⟩ :=
            head?_lex_of_proper hproper fun _ _ => rfl
          rw [hlex]
          simp [firstMatch?, patterns, Pattern.match?, takeParts?, hblank, hc]

/-- Every other character is a lexeme by itself. -/
theorem firstMatch?_single {c : Char} (hpercent : c ≠ '%')
    (hblank : Text.isBlank c = false) (hback : c ≠ '\\') (cs : List Char) :
    firstMatch? (c :: cs) = (lex (c :: cs)).head? := by
  have hextend : ∀ d, (Lexeme.start c).extend? d = none := by
    intro d
    cases hkind : Lexeme.startKind c with
    | comment => exact absurd (Lexeme.opens_of_startKind hkind) hpercent
    | blank =>
        have hopens : Text.isBlank c = true := Lexeme.opens_of_startKind hkind
        simp [hblank] at hopens
    | controlWord => exact False.elim (Lexeme.opens_of_startKind hkind)
    | _ => simp [Lexeme.extend?, Lexeme.extendKind?, Lexeme.start, hkind, hback]
  have hlex : (lex (c :: cs)).head? = some (Lexeme.start c) :=
    head?_lex_of_proper (Lexeme.start_proper c) fun d _ => hextend d
  rw [hlex]
  simp only [firstMatch?, patterns, Lexeme.start, Lexeme.startKind]
  split_ifs <;> simp_all [Pattern.match?, takeParts?]

/-- **The patterns find the first lexeme of a text**, so they find one wherever a
text goes on. -/
theorem firstMatch?_eq_head? (cs : List Char) : firstMatch? cs = (lex cs).head? := by
  cases cs with
  | nil => rfl
  | cons c cs =>
      by_cases hpercent : c = '%'
      · subst hpercent
        exact firstMatch?_percent cs
      · by_cases hback : c = '\\'
        · subst hback
          exact firstMatch?_backslash cs
        · cases hblank : Text.isBlank c with
          | true => exact firstMatch?_blank hblank cs
          | false => exact firstMatch?_single hpercent hblank hback cs

/-! ### Rounds -/

/-- The mark of a token. -/
def Token.mark (t : Token) : Descent.Mark :=
  ⟨some t.lexeme, t.start⟩

/-- Where a scan stands: the tokens that it has found and the offset behind them. -/
structure Scan where
  tokens : List Token
  position : Nat

namespace Scan

/-- One search through the patterns.  At the end of the text there is nothing to
search, and where no pattern matches the scan stays as it is. -/
def round (cs : List Char) (s : Scan) : Scan :=
  if s.position < cs.length then
    match firstMatch? (cs.drop s.position) with
    | some l => ⟨s.tokens ++ [⟨l, s.position⟩], s.position + l.text.length⟩
    | none => s
  else s

/-- Where the scan of a source stands after some rounds. -/
def after (source : String) (rounds : Nat) : Scan :=
  (round source.toList)^[rounds] ⟨[], 0⟩

/-- The marks that a scan leaves behind: its tokens and the end mark. -/
def marks (s : Scan) : List Descent.Mark :=
  s.tokens.map Token.mark ++ [⟨none, s.position⟩]

/-- A scan that has found lexemes in a row. -/
def found (ls : List Lexeme) : Scan :=
  ⟨placeFrom 0 ls, (lexemesText ls).length⟩

@[simp] theorem position_found (ls : List Lexeme) :
    (found ls).position = (lexemesText ls).length := rfl

/-- The marks of a scan are those that the reader by descent goes over. -/
theorem marks_found (ls : List Lexeme) : (found ls).marks = Descent.marksOf ls := rfl

/-- A scan that has not found all lexemes has not come to the end of the text. -/
theorem position_found_lt {cs : List Char} {ls ms : List Lexeme} {l : Lexeme}
    (h : lex cs = ls ++ l :: ms) : (found ls).position < cs.length := by
  have hne : l.text ≠ [] := (lex_proper cs l (by simp [h])).text_ne_nil
  have hpos : 0 < l.text.length := List.length_pos_of_ne_nil hne
  rw [← lexemesText_lex cs, h, lexemesText_append, lexemesText_cons, List.length_append,
    List.length_append, position_found]
  omega

/-- A round finds one more lexeme of the text. -/
theorem round_found {cs : List Char} {ls ms : List Lexeme} {l : Lexeme}
    (h : lex cs = ls ++ l :: ms) :
    (found ls).round cs = found (ls ++ [l]) := by
  have hcs : cs = lexemesText ls ++ lexemesText (l :: ms) := by
    rw [← lexemesText_append, ← h, lexemesText_lex]
  have hdrop : cs.drop (found ls).position = lexemesText (l :: ms) := by
    rw [hcs, position_found, List.drop_left]
  have hmatch : firstMatch? (cs.drop (found ls).position) = some l := by
    rw [hdrop, firstMatch?_eq_head?, (lex_append h).2, List.head?_cons]
  rw [round, if_pos (position_found_lt h), hmatch]
  simp [found, placeFrom_append, placeFrom]

/-- A scan that has found all lexemes stays at the end of the text. -/
theorem round_found_lex (cs : List Char) :
    (found (lex cs)).round cs = found (lex cs) := by
  rw [round, if_neg]
  simp [lexemesText_lex]

/-- **The first rounds find the first lexemes**, one each, and later rounds change
nothing. -/
theorem after_eq (source : String) (rounds : Nat) :
    after source rounds = found ((lex source.toList).take rounds) := by
  induction rounds with
  | zero => rfl
  | succ n ih =>
      rw [after, Function.iterate_succ_apply', ← after, ih]
      by_cases hn : n < (lex source.toList).length
      · have hsplit : lex source.toList = (lex source.toList).take n ++
            (lex source.toList)[n] :: (lex source.toList).drop (n + 1) := by simp
        rw [round_found hsplit, List.take_append_getElem hn]
      · rw [List.take_of_length_le (by omega),
          List.take_of_length_le (by omega), round_found_lex]

/-- A scan goes on for one round for each lexeme. -/
theorem position_after_lt_iff (source : String) (rounds : Nat) :
    (after source rounds).position < source.length ↔
      rounds < (lex source.toList).length := by
  rw [after_eq, ← String.length_toList]
  constructor
  · intro h
    by_contra hn
    rw [List.take_of_length_le (by omega), position_found, lexemesText_lex] at h
    exact Nat.lt_irrefl _ h
  · intro hn
    have hsplit : lex source.toList = (lex source.toList).take rounds ++
        (lex source.toList)[rounds] :: (lex source.toList).drop (rounds + 1) := by simp
    exact position_found_lt hsplit

end Scan

end Formulary.Markup
