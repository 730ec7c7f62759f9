import Formulary.Proofs.Braces

/-!
# Warnings about braces

The warnings about braces name the braces that a stack leaves unmatched, and name
them in the order of the stack: stray closing braces from left to right, and groups
that are not terminated from the innermost outwards.  The command table has no part
in it.

* `strays_sublist` and `opened_sublist` say in which order the matching finds what it
  leaves over.
* `brace_warnings_are_unmatched` compares the warnings with the matching.
-/

namespace Formulary.Markup

/-! ### The order of tokens -/

/-- The offsets of the tokens of a kind. -/
def startsOf (kind : LexemeKind) (tokens : List Token) : List Nat :=
  (tokens.filter (·.lexeme.kind = kind)).map Token.start

/-- The starts of tokens of one kind, token by token. -/
theorem startsOf_append_singleton (kind : LexemeKind)
    (tokens : List Token) (t : Token) :
    startsOf kind (tokens ++ [t]) =
      startsOf kind tokens ++ if t.lexeme.kind = kind then [t.start] else [] := by
  by_cases h : t.lexeme.kind = kind <;> simp [startsOf, h]

theorem start_le_of_mem_placeFrom {t : Token} {start : Nat} {ls : List Lexeme}
    (h : t ∈ placeFrom start ls) : start ≤ t.start := by
  induction ls generalizing start with
  | nil => simp [placeFrom] at h
  | cons l ls ih =>
      rcases List.mem_cons.mp h with rfl | h
      · exact Nat.le_refl start
      · have := ih h
        omega

/-- Tokens that are not empty start one after the other. -/
theorem pairwise_placeFrom {ls : List Lexeme}
    (hne : ∀ l ∈ ls, l.text ≠ []) (start : Nat) :
    (placeFrom start ls).Pairwise (·.start < ·.start) := by
  induction ls generalizing start with
  | nil => exact List.Pairwise.nil
  | cons l ls ih =>
      refine List.pairwise_cons.mpr
        ⟨fun t ht => ?_, ih (fun m hm => hne m (by simp [hm])) _⟩
      have hlength : 0 < l.text.length := List.length_pos_of_ne_nil (hne l (by simp))
      have := start_le_of_mem_placeFrom ht
      simp only
      omega

/-- Tokens stand one after the other. -/
theorem pairwise_startsOf (kind : LexemeKind) (source : String) :
    (startsOf kind (tokenize source)).Pairwise (· < ·) := by
  have htokens : (tokenize source).Pairwise (·.start < ·.start) :=
    pairwise_placeFrom (fun l hl => (lex_proper source.toList l hl).text_ne_nil) 0
  exact List.pairwise_map.mpr (htokens.sublist List.filter_sublist)

/-! ### What matching leaves over -/

theorem matchBraces_append_singleton (tokens : List Token) (t : Token) :
    matchBraces (tokens ++ [t]) = (matchBraces tokens).step t := by
  simp [matchBraces]

/-- Strays are closing braces, in the order of the source. -/
theorem strays_sublist (tokens : List Token) :
    (matchBraces tokens).strays.Sublist (startsOf .closeBrace tokens) := by
  induction tokens using List.reverseRecOn with
  | nil => exact List.Sublist.slnil
  | append_singleton tokens t ih =>
      rw [matchBraces_append_singleton, startsOf_append_singleton]
      unfold BraceMatch.step
      split
      · exact ih.trans (List.sublist_append_left _ _)
      · rename_i hkind _
        simpa [hkind] using ih
      · exact ih.trans (List.sublist_append_left _ _)
      · exact ih.trans (List.sublist_append_left _ _)

/-- Braces that are left open are opening braces, in the order of the source. -/
theorem opened_sublist (tokens : List Token) :
    (matchBraces tokens).opened.reverse.Sublist (startsOf .openBrace tokens) := by
  induction tokens using List.reverseRecOn with
  | nil => exact List.Sublist.slnil
  | append_singleton tokens t ih =>
      rw [matchBraces_append_singleton, startsOf_append_singleton]
      unfold BraceMatch.step
      split
      · rename_i hkind
        simpa [hkind] using ih
      · exact ih.trans (List.sublist_append_left _ _)
      · -- The brace that is closed was the last one on the stack, so the others keep
        -- their order.
        rename_i below _ hopened
        rw [hopened, List.reverse_cons] at ih
        exact ((List.sublist_append_left _ _).trans ih).trans
          (List.sublist_append_left _ _)
      · exact ih.trans (List.sublist_append_left _ _)

/-! ### What is reported -/

/-- The offsets of the warnings with a given wording. -/
def positionsOf (message : String) (warnings : List Warning) : List Nat :=
  (warnings.filter (·.message = message)).map Warning.position

/-- A missing argument is worded like nothing else. -/
theorem message_ne_of_missingArgument {w : Warning} (h : w.complaint = .missingArgument)
    {message : String} (hhead : message.toList.head? ≠ some 'M') :
    w.message ≠ message := by
  rintro rfl
  exact hhead (by simp [Warning.message, h])

theorem message_eq_unmatched_iff (w : Warning) :
    w.message = "Unmatched '\x7d'" ↔ w.complaint = .unmatchedBrace := by
  cases h : w.complaint with
  | missingArgument =>
      exact iff_of_false (message_ne_of_missingArgument h (by decide)) (by simp)
  | _ => simp [Warning.message, h]

/-- Braces that are left open can be told from the message. -/
theorem message_eq_unterminated_iff (w : Warning) :
    w.message = "Unterminated group" ↔ w.complaint = .unterminatedGroup := by
  cases h : w.complaint with
  | missingArgument =>
      exact iff_of_false (message_ne_of_missingArgument h (by decide)) (by simp)
  | _ => simp [Warning.message, h]

/-- Where each kind of complaint has a message of its own, reports are selected by
either. -/
theorem positionsOf_eq_reported {message : String} {complaint : Complaint}
    (h : ∀ w : Warning, w.message = message ↔ w.complaint = complaint)
    (ws : List Warning) :
    positionsOf message ws = reported complaint ws := by
  simp [positionsOf, reported, h]

/-- A source is matched as its warnings say. -/
theorem matchBraces_tokenize (table : CommandTable) (source : String) :
    (matchBraces (tokenize source)).strays =
        reported .unmatchedBrace (parse table source).warnings ∧
      (matchBraces (tokenize source)).opened =
        reported .unterminatedGroup (parse table source).warnings := by
  obtain ⟨-, pairs, -, hfold⟩ := treesMatch (parse table source).trees 0 .top .math []
    ⟨[], [], []⟩ (parse_reads table source) fun _ => rfl
  rw [parse_lexemes] at hfold
  rw [matchBraces, tokenize, hfold]
  exact ⟨List.nil_append _, List.append_nil _⟩

/-- **The warnings about braces are exact.**  They are about the braces that a stack
leaves unmatched, whatever the table: each of the closing ones once and from left to
right, and each of the opening ones once and from right to left. -/
theorem brace_warnings_are_unmatched (table : CommandTable) (source : String) :
    (positionsOf "Unmatched '\x7d'" (parse table source).warnings =
        (matchBraces (tokenize source)).strays ∧
      (matchBraces (tokenize source)).strays.Sublist
        (startsOf .closeBrace (tokenize source)) ∧
      (matchBraces (tokenize source)).strays.Pairwise (· < ·)) ∧
    positionsOf "Unterminated group" (parse table source).warnings =
        (matchBraces (tokenize source)).opened ∧
      (matchBraces (tokenize source)).opened.reverse.Sublist
        (startsOf .openBrace (tokenize source)) ∧
      (matchBraces (tokenize source)).opened.Pairwise (· > ·) := by
  obtain ⟨hstrays, hopened⟩ := matchBraces_tokenize table source
  have hclose := strays_sublist (tokenize source)
  have hopen := opened_sublist (tokenize source)
  rw [positionsOf_eq_reported message_eq_unmatched_iff,
    positionsOf_eq_reported message_eq_unterminated_iff]
  refine ⟨⟨hstrays.symm, hclose, (pairwise_startsOf _ source).sublist hclose⟩,
    hopened.symm, hopen, ?_⟩
  exact List.pairwise_reverse.mp ((pairwise_startsOf _ source).sublist hopen)

end Formulary.Markup
