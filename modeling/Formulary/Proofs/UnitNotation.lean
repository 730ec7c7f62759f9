import Formulary.Units
import Mathlib.Data.List.Infix

/-!
# Units behind a variable

A declaration is cut at its delimiters from left to right.  What comes out can be
told from where the delimiters stand: the variable is all in front of the first one,
and no piece holds one.  So a variable and units that hold no delimiter are found
again in the declaration that is made of them.

The last needs an argument about overlaps.  A delimiter might be made up of the end
of the variable and the start of the mark behind it, as the end of `\right` and a
following `\rbrack` would.  This never happens, since no rest of a delimiter starts
like a delimiter (`unitDelimiters_apart`).

* `Undelimited` says that no delimiter starts within the front of a text.
* `fragments_append` cuts a text behind such a front, and `exists_first_delimiter`
  finds one in every text.
* `declaration_split` is the main statement.
-/

namespace Formulary

/-! ### Delimiters in a text -/

/-- A delimiter stands at the front of a text. -/
def StartsWithDelimiter (cs : List Char) : Prop :=
  ∃ delimiter ∈ unitDelimiters, delimiter <+: cs

/-- A delimiter stands somewhere in a text. -/
def HasDelimiter (cs : List Char) : Prop :=
  ∃ delimiter ∈ unitDelimiters, delimiter <:+: cs

/-- No delimiter starts within the first of two texts, though it may go on into the
second. -/
def Undelimited (front rest : List Char) : Prop :=
  ∀ i < front.length, ¬ StartsWithDelimiter ((front ++ rest).drop i)

instance (cs : List Char) : Decidable (StartsWithDelimiter cs) :=
  inferInstanceAs (Decidable (∃ delimiter ∈ unitDelimiters, delimiter <+: cs))

instance (cs : List Char) : Decidable (HasDelimiter cs) :=
  inferInstanceAs (Decidable (∃ delimiter ∈ unitDelimiters, delimiter <:+: cs))

/-- A delimiter in a text is one in every text around it. -/
theorem HasDelimiter.mono {cs ds : List Char} (h : HasDelimiter cs) (hcs : cs <:+: ds) :
    HasDelimiter ds := by
  obtain ⟨delimiter, hmem, hdelimiter⟩ := h
  exact ⟨delimiter, hmem, hdelimiter.trans hcs⟩

/-- A delimiter stands in a text if it starts at one of its characters. -/
theorem hasDelimiter_iff {cs : List Char} :
    HasDelimiter cs ↔ ∃ i < cs.length, StartsWithDelimiter (cs.drop i) := by
  have hne : ∀ delimiter ∈ unitDelimiters, delimiter ≠ [] := by decide
  constructor
  · rintro ⟨delimiter, hmem, before, after, rfl⟩
    have hpos : 0 < delimiter.length := List.length_pos_of_ne_nil (hne delimiter hmem)
    refine ⟨before.length, by simp; omega, delimiter, hmem, ?_⟩
    rw [List.append_assoc, List.drop_left]
    exact List.prefix_append delimiter after
  · rintro ⟨i, -, delimiter, hmem, hdelimiter⟩
    exact ⟨delimiter, hmem, hdelimiter.isInfix.trans (List.drop_suffix i cs).isInfix⟩

/-- A text without anything behind it is undelimited if it has no delimiter. -/
theorem undelimited_nil_iff {cs : List Char} :
    Undelimited cs [] ↔ ¬ HasDelimiter cs := by
  simp only [Undelimited, List.append_nil, hasDelimiter_iff, not_exists, not_and]

/-- No delimiter starts in a text if none starts at its first character or later. -/
theorem undelimited_cons {c : Char} {front rest : List Char} :
    Undelimited (c :: front) rest ↔
      ¬ StartsWithDelimiter (c :: (front ++ rest)) ∧ Undelimited front rest := by
  constructor
  · intro h
    exact ⟨h 0 (by simp), fun i hi => h (i + 1) (by simpa using hi)⟩
  · rintro ⟨hfirst, hrest⟩ i hi
    cases i with
    | zero => exact hfirst
    | succ i => exact hrest i (by simpa using hi)

/-- Where no delimiter starts, none stands. -/
theorem Undelimited.not_hasDelimiter {front rest : List Char}
    (h : Undelimited front rest) :
    ¬ HasDelimiter front := by
  rw [hasDelimiter_iff]
  rintro ⟨i, hi, delimiter, hmem, hdelimiter⟩
  refine h i hi ⟨delimiter, hmem, ?_⟩
  rw [List.drop_append_of_le_length (Nat.le_of_lt hi)]
  exact hdelimiter.trans (List.prefix_append _ rest)

/-! ### Overlaps -/

/-- What is left of a delimiter behind its first characters neither starts a
delimiter nor starts with one. -/
theorem unitDelimiters_apart :
    ∀ delimiter ∈ unitDelimiters, ∀ i < delimiter.length, 0 < i →
      ∀ other ∈ unitDelimiters, ¬ delimiter.drop i <+: other ∧
        ¬ other <+: delimiter.drop i := by
  decide +kernel

/-- No delimiter is the start of another. -/
theorem eq_of_unitDelimiters : ∀ delimiter ∈ unitDelimiters, ∀ other ∈ unitDelimiters,
    delimiter <+: other → delimiter = other := by
  decide +kernel

/-- **No delimiter is formed across a join** of a text that holds none and a
delimiter. -/
theorem undelimited_of_not_hasDelimiter {front mark : List Char}
    (h : ¬ HasDelimiter front) (hmark : mark ∈ unitDelimiters) (rest : List Char) :
    Undelimited front (mark ++ rest) := by
  intro i hi
  rintro ⟨delimiter, hmem, hdelimiter⟩
  rw [List.drop_append_of_le_length (Nat.le_of_lt hi)] at hdelimiter
  have hback : 0 < (front.drop i).length := by
    rw [List.length_drop]
    omega
  rcases Nat.lt_or_ge (front.drop i).length delimiter.length with hlt | hle
  · -- The delimiter goes on behind the front: what is left of it has to agree with
    -- the mark.
    have hleft : delimiter.drop (front.drop i).length <+: mark ++ rest := by
      have hdrop := hdelimiter.drop (front.drop i).length
      rwa [List.drop_left] at hdrop
    obtain ⟨hstart, hend⟩ := unitDelimiters_apart delimiter hmem _ hlt hback mark hmark
    exact (List.prefix_or_prefix_of_prefix hleft (List.prefix_append mark rest)).elim
      hstart hend
  · have hwithin : delimiter <+: front.drop i :=
      List.prefix_of_prefix_length_le hdelimiter (List.prefix_append _ _) hle
    exact h (hasDelimiter_iff.mpr ⟨i, hi, delimiter, hmem, hwithin⟩)

/-! ### Cutting at delimiters -/

theorem unitDelimiterAt?_eq_none {cs : List Char} (h : ¬ StartsWithDelimiter cs) :
    unitDelimiterAt? cs = none := by
  rw [unitDelimiterAt?, List.find?_eq_none]
  intro delimiter hmem hfound
  exact h ⟨delimiter, hmem, List.isPrefixOf_iff_prefix.mp hfound⟩

theorem of_unitDelimiterAt?_eq_some {cs mark : List Char}
    (h : unitDelimiterAt? cs = some mark) :
    mark ∈ unitDelimiters ∧ mark <+: cs := by
  rw [unitDelimiterAt?] at h
  have hfound := List.find?_some h
  exact ⟨List.mem_of_find?_eq_some h, List.isPrefixOf_iff_prefix.mp hfound⟩

/-- A delimiter that starts a text is found, because none is the beginning of
another. -/
theorem unitDelimiterAt?_append {mark : List Char} (hmark : mark ∈ unitDelimiters)
    (rest : List Char) : unitDelimiterAt? (mark ++ rest) = some mark := by
  cases hfound : unitDelimiterAt? (mark ++ rest) with
  | none =>
      have hnone := List.find?_eq_none.mp hfound mark hmark
      exact absurd (List.isPrefixOf_iff_prefix.mpr (List.prefix_append mark rest)) hnone
  | some other =>
      obtain ⟨hmem, hother⟩ := of_unitDelimiterAt?_eq_some hfound
      rcases List.prefix_or_prefix_of_prefix hother (List.prefix_append mark rest)
        with h | h
      · rw [eq_of_unitDelimiters other hmem mark hmark h]
      · rw [eq_of_unitDelimiters mark hmark other hmem h]

theorem fragmentsFrom_eq (skip : Nat) (cs : List Char) :
    fragmentsFrom skip cs = fragments (cs.drop skip) := by
  induction cs generalizing skip with
  | nil => cases skip <;> rfl
  | cons c cs ih =>
      cases skip with
      | zero => rfl
      | succ skip => rw [fragmentsFrom, ih, List.drop_succ_cons]

/-- A delimiter at the start cuts off an empty fragment. -/
theorem fragments_mark {mark : List Char} (hmark : mark ∈ unitDelimiters)
    (rest : List Char) :
    fragments (mark ++ rest) = [] :: fragments rest := by
  have hat := unitDelimiterAt?_append hmark rest
  cases mark with
  | nil => exact absurd hmark (by decide)
  | cons c cs =>
      rw [List.cons_append] at hat ⊢
      rw [fragments, fragmentsFrom, hat]
      change [] :: fragmentsFrom cs.length (cs ++ rest) = _
      rw [fragmentsFrom_eq, List.drop_left]

/-- A character where no delimiter starts belongs to the first fragment. -/
theorem fragments_cons {c : Char} {cs : List Char}
    (h : ¬ StartsWithDelimiter (c :: cs)) :
    fragments (c :: cs) = consFirst c (fragments cs) := by
  rw [fragments, fragmentsFrom, unitDelimiterAt?_eq_none h]
  rfl

/-- A front in which no delimiter starts goes to the first piece of the rest. -/
theorem fragments_append {front rest first : List Char} {others : List (List Char)}
    (hfront : Undelimited front rest) (hrest : fragments rest = first :: others) :
    fragments (front ++ rest) = (front ++ first) :: others := by
  induction front with
  | nil => exact hrest
  | cons c front ih =>
      obtain ⟨hfirst, hfront⟩ := undelimited_cons.mp hfront
      rw [List.cons_append, fragments_cons hfirst, ih hfront]
      rfl

theorem fragments_of_not_hasDelimiter {cs : List Char} (h : ¬ HasDelimiter cs) :
    fragments cs = [cs] := by
  have hcut : fragments (cs ++ []) = [cs ++ []] :=
    fragments_append (undelimited_nil_iff.mpr h) rfl
  rwa [List.append_nil] at hcut

theorem fragments_of_mark {front mark rest : List Char} (hmark : mark ∈ unitDelimiters)
    (hfront : Undelimited front (mark ++ rest)) :
    fragments (front ++ (mark ++ rest)) = front :: fragments rest := by
  rw [fragments_append hfront (fragments_mark hmark rest), List.append_nil]

/-- A text has no delimiter, or it has a first one. -/
theorem exists_first_delimiter (cs : List Char) :
    ¬ HasDelimiter cs ∨
      ∃ front mark rest, mark ∈ unitDelimiters ∧ cs = front ++ (mark ++ rest) ∧
        Undelimited front (mark ++ rest) := by
  induction cs with
  | nil => exact .inl (by decide)
  | cons c cs ih =>
      by_cases hstart : StartsWithDelimiter (c :: cs)
      · obtain ⟨mark, hmark, rest, hrest⟩ := hstart
        exact .inr ⟨[], mark, rest, hmark, hrest.symm, by simp [Undelimited]⟩
      · rcases ih with hnone | ⟨front, mark, rest, hmark, rfl, hfront⟩
        · left
          rw [← undelimited_nil_iff, undelimited_cons, List.append_nil,
            undelimited_nil_iff]
          exact ⟨hstart, hnone⟩
        · exact .inr ⟨c :: front, mark, rest, hmark, rfl,
            undelimited_cons.mpr ⟨hstart, hfront⟩⟩

/-- **No piece of a text holds a delimiter.** -/
theorem not_hasDelimiter_of_mem_fragments {cs piece : List Char}
    (h : piece ∈ fragments cs) :
    ¬ HasDelimiter piece := by
  induction hlength : cs.length using Nat.strongRecOn generalizing cs with
  | ind n ih =>
      rcases exists_first_delimiter cs
        with hnone | ⟨front, mark, rest, hmark, rfl, hfront⟩
      · rw [fragments_of_not_hasDelimiter hnone, List.mem_singleton] at h
        rwa [h]
      · rw [fragments_of_mark hmark hfront] at h
        rcases List.mem_cons.mp h with rfl | h
        · exact hfront.not_hasDelimiter
        · have hpos : mark ≠ [] := by
            rintro rfl
            exact absurd hmark (by decide)
          have hlt : rest.length < n := by
            have := List.length_pos_of_ne_nil hpos
            rw [← hlength, List.length_append, List.length_append]
            omega
          exact ih rest.length hlt h rfl

/-! ### Declarations -/

theorem Text.infix_trimChars (cs : List Char) : Text.trimChars cs <:+: cs := by
  have hback : ((cs.dropWhile isBlank).reverse.dropWhile isBlank).reverse <+:
      cs.dropWhile isBlank := by
    rw [← List.reverse_suffix, List.reverse_reverse]
    exact List.dropWhile_suffix isBlank
  exact hback.isInfix.trans (List.dropWhile_suffix isBlank).isInfix

namespace VariableUnits

/-- What a declaration is split into, given the pieces of its text. -/
theorem ofDeclaration_of_fragments {declaration : String} {first : List Char}
    {others : List (List Char)} (h : fragments declaration.toList = first :: others) :
    ofDeclaration declaration =
      ⟨String.ofList first,
        String.ofList (Text.trimChars ((others.find? (!·.isEmpty)).getD []))⟩ := by
  rw [ofDeclaration, h]

/-- The variable is the text in front of the first delimiter, or all of it. -/
theorem variableText_cases (declaration : String) :
    (¬ HasDelimiter declaration.toList ∧
      (ofDeclaration declaration).variableText = declaration) ∨
      ∃ mark rest, mark ∈ unitDelimiters ∧
        declaration.toList =
          (ofDeclaration declaration).variableText.toList ++ (mark ++ rest) ∧
        Undelimited (ofDeclaration declaration).variableText.toList (mark ++ rest) := by
  rcases exists_first_delimiter declaration.toList
    with hnone | ⟨front, mark, rest, hmark, heq, hfront⟩
  · left
    rw [ofDeclaration_of_fragments (fragments_of_not_hasDelimiter hnone),
      String.ofList_toList]
    exact ⟨hnone, rfl⟩
  · right
    have hcut := fragments_of_mark hmark hfront
    rw [← heq] at hcut
    rw [ofDeclaration_of_fragments hcut, String.toList_ofList]
    exact ⟨mark, rest, hmark, heq, hfront⟩

/-- There is no delimiter in the units, as they are a fragment. -/
theorem not_hasDelimiter_units (declaration : String) :
    ¬ HasDelimiter (ofDeclaration declaration).units.toList := by
  cases hpieces : fragments declaration.toList with
  | nil =>
      have hempty : (ofDeclaration declaration).units = "" := by
        rw [ofDeclaration, hpieces]
      rw [hempty]
      decide
  | cons first others =>
      rw [ofDeclaration_of_fragments hpieces, String.toList_ofList]
      intro h
      have hpiece := h.mono (Text.infix_trimChars _)
      cases hfound : others.find? (!·.isEmpty) with
      | none =>
          rw [hfound] at hpiece
          exact absurd hpiece (by decide)
      | some piece =>
          rw [hfound] at hpiece
          have hmem : piece ∈ fragments declaration.toList := by
            rw [hpieces]
            exact List.mem_cons_of_mem first (List.mem_of_find?_eq_some hfound)
          exact not_hasDelimiter_of_mem_fragments hmem hpiece

/-- **Splitting a declaration undoes the notation of units.**  A variable and units
without delimiters are found again whatever follows them, the units without the
blanks at their ends.  In any declaration the variable is the text in front of the
first delimiter, or all of the declaration if there is none, and the units hold no
delimiter. -/
theorem declaration_split :
    (∀ variableText units closing rest : String, ¬ HasDelimiter variableText.toList →
      ¬ HasDelimiter units.toList → units ≠ "" → closing = "\\right\\rbrack" ∨
        closing = "\\right." →
        ofDeclaration (variableText ++ "\\left\\lbrack" ++ units ++ closing ++ rest) =
          ⟨variableText, Text.trim units⟩) ∧
      ∀ declaration : String,
        (∃ after, declaration.toList =
          (ofDeclaration declaration).variableText.toList ++ after ∧
          (after = [] ∨ StartsWithDelimiter after)) ∧
        (∀ i < (ofDeclaration declaration).variableText.toList.length,
          ¬ StartsWithDelimiter (declaration.toList.drop i)) ∧
        ¬ HasDelimiter (ofDeclaration declaration).units.toList ∧
        (¬ HasDelimiter declaration.toList →
          (ofDeclaration declaration).variableText = declaration) := by
  constructor
  · intro variableText units closing rest hvariable hunits hne hclosing
    have hopen : "\\left\\lbrack".toList ∈ unitDelimiters := by decide
    have hclose : closing.toList ∈ unitDelimiters := by
      rcases hclosing with rfl | rfl <;> decide
    -- The units end at the closing mark and the variable at the opening one, so
    -- these three are the first pieces of the declaration.
    have hinner := fragments_of_mark hclose
      (undelimited_of_not_hasDelimiter hunits hclose rest.toList)
    have houter := fragments_of_mark hopen
      (undelimited_of_not_hasDelimiter hvariable hopen
        (units.toList ++ (closing.toList ++ rest.toList)))
    rw [hinner] at houter
    have hfound : units.toList ≠ [] := fun h => hne (String.toList_eq_nil_iff.mp h)
    rw [ofDeclaration_of_fragments (by simpa using houter)]
    simp [hfound, Text.trim]
  · intro declaration
    have hunits := not_hasDelimiter_units declaration
    -- Without a mark the whole declaration is the variable. Otherwise the variable
    -- ends where the first mark starts.
    rcases variableText_cases declaration
      with ⟨hnone, hall⟩ | ⟨mark, rest, hmark, heq, hfront⟩
    · rw [hall]
      refine ⟨⟨[], by simp, .inl rfl⟩, fun i hi hstart => ?_, hunits, fun _ => rfl⟩
      exact hnone (hasDelimiter_iff.mpr ⟨i, hi, hstart⟩)
    · have hmarked : StartsWithDelimiter (mark ++ rest) :=
        ⟨mark, hmark, List.prefix_append mark rest⟩
      refine ⟨⟨mark ++ rest, heq, .inr hmarked⟩, ?_, hunits, fun hnone => ?_⟩
      · rw [heq]
        exact hfront
      · refine absurd ⟨mark, hmark, ?_⟩ hnone
        rw [heq]
        exact (List.prefix_append mark rest).isInfix.trans
          (List.suffix_append _ _).isInfix

/-- Texts that end in the start of a delimiter, in front of marks that would have to
finish it, and a text without an opening mark. -/
theorem declaration_split_joins :
    (¬ HasDelimiter "v\\left".toList ∧ ¬ HasDelimiter " m\\right".toList ∧
      ofDeclaration "v\\left\\left\\lbrack m\\right\\right\\rbrack\\right." =
        ⟨"v\\left", "m\\right"⟩) ∧
      ¬ HasDelimiter "v\\left[m\\right".toList ∧
      (ofDeclaration "v\\left[m\\right").variableText = "v\\left[m\\right" := by
  have hvariable : ¬ HasDelimiter "v\\left".toList := by decide +kernel
  have hunits : ¬ HasDelimiter " m\\right".toList := by decide +kernel
  have hnone : ¬ HasDelimiter "v\\left[m\\right".toList := by decide +kernel
  obtain ⟨hjoined, hany⟩ := declaration_split
  have hsplit := hjoined "v\\left" " m\\right" "\\right\\rbrack"
    "\\right." hvariable hunits
    (by decide) (.inl rfl)
  exact ⟨⟨hvariable, hunits, hsplit⟩, hnone, (hany "v\\left[m\\right").2.2.2 hnone⟩

end VariableUnits

end Formulary
