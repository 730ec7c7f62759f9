import Formulary.Equation.Parts
import Formulary.Proofs.Braces
import Formulary.Proofs.Composition

/-!
# Cutting an equation

The parts of an equation with the separators put back between them are the equation,
and the separators stand outside of all braces.

* `Cut` says which separators an equation is cut at, and `Cut.ofSource` which ones
  they are.
* `Cut.Divides` says the same of trees, and everything else follows from
  `divides_ofTrees`.
* `restores_iff` is the main statement.
-/

namespace Formulary

open Formulary.Markup

/-- The separators that an equation is cut at. -/
inductive Cut where
  /-- An equals sign and a comma after it. -/
  | both
  /-- Only an equals sign. -/
  | assignment
  /-- Only a comma. -/
  | comma
  | neither
  deriving DecidableEq, Repr

namespace Cut

/-- The separators that trees are cut at. -/
def ofTrees (ts : List Tree) : Cut :=
  match splitAssignment false ts with
  | some (_, rest) => if (splitConstraint 0 0 rest).isSome then .both else .assignment
  | none => if (splitConstraint 0 0 ts).isSome then .comma else .neither

/-- The separators that a source is cut at. -/
def ofSource (table : CommandTable) (source : String) : Cut :=
  match parseWithin table source with
  | .ok d => ofTrees d.trees
  | .error _ => .neither

/-- The parts with the separators put back between them are the source; a part
without its separator is empty. -/
def Restores (source : String) (p : EquationParts) : Cut → Prop
  | .both => source = p.declaration ++ "=" ++ p.body ++ "," ++ p.constraint
  | .assignment => source = p.declaration ++ "=" ++ p.body ∧ p.constraint = ""
  | .comma => source = p.body ++ "," ++ p.constraint ∧ p.declaration = ""
  | .neither => source = p.body ∧ p.declaration = "" ∧ p.constraint = ""

/-- The tokens that are cut out between the parts. -/
def separators (p : EquationParts) : Cut → List Token
  | .both =>
    [⟨⟨.other, ['=']⟩, p.declaration.length⟩,
      ⟨⟨.other, [',']⟩, p.declaration.length + 1 + p.body.length⟩]
  | .assignment => [⟨⟨.other, ['=']⟩, p.declaration.length⟩]
  | .comma => [⟨⟨.other, [',']⟩, p.body.length⟩]
  | .neither => []

/-- Trees fall into the trees of the parts and the separators between them. -/
def Divides (ts : List Tree) (p : EquationParts) : Cut → Prop
  | .both => ∃ ds bs cs, ts = ds ++ .text ['='] :: (bs ++ .text [','] :: cs) ∧
      p = ⟨EquationParts.textOf ds, EquationParts.textOf bs, EquationParts.textOf cs⟩
  | .assignment => ∃ ds bs, ts = ds ++ .text ['='] :: bs ∧
      p = ⟨EquationParts.textOf ds, EquationParts.textOf bs, ""⟩
  | .comma => ∃ bs cs, ts = bs ++ .text [','] :: cs ∧
      p = ⟨"", EquationParts.textOf bs, EquationParts.textOf cs⟩
  | .neither => p = ⟨"", EquationParts.textOf ts, ""⟩

end Cut

/-! ### Cutting trees -/

/-- An equation is cut at a sign of its own: what stands before it, the sign and what
stands behind it are all of the trees. -/
theorem eq_append_of_splitAssignment {comparing : Bool} {ts us vs : List Tree}
    (h : splitAssignment comparing ts = some (us, vs)) :
    ts = us ++ .text ['='] :: vs := by
  fun_induction splitAssignment comparing ts generalizing us with
  | case1 => simp at h
  | case2 rest ih =>
      obtain ⟨⟨us', vs'⟩, hsplit, heq⟩ := Option.map_eq_some_iff.mp h
      obtain ⟨rfl, rfl⟩ := Prod.mk.inj heq
      rw [ih hsplit, List.cons_append]
  | case3 comparing rest =>
      obtain ⟨rfl, rfl⟩ := Prod.mk.inj (Option.some.inj h)
      rfl
  | case4 comparing t rest hne ih =>
      obtain ⟨⟨us', vs'⟩, hsplit, heq⟩ := Option.map_eq_some_iff.mp h
      obtain ⟨rfl, rfl⟩ := Prod.mk.inj heq
      rw [ih hsplit, List.cons_append]

/-- A body is cut at a tree that is a comma, and nothing else is lost. -/
theorem exists_append_of_splitConstraint {brackets delimiters : Int}
    {ts us vs : List Tree}
    (h : splitConstraint brackets delimiters ts = some (us, vs)) :
    ∃ t : Tree, t.chars = [','] ∧ ts = us ++ t :: vs := by
  fun_induction splitConstraint brackets delimiters ts generalizing us with
  | case1 => simp at h
  | case2 brackets delimiters t rest hcomma =>
      obtain ⟨rfl, rfl⟩ := Prod.mk.inj (Option.some.inj h)
      exact ⟨t, hcomma.1, rfl⟩
  | case3 brackets delimiters t rest hcomma ih =>
      obtain ⟨⟨us', vs'⟩, hsplit, heq⟩ := Option.map_eq_some_iff.mp h
      obtain ⟨rfl, rfl⟩ := Prod.mk.inj heq
      obtain ⟨comma, hchars, hrest⟩ := ih hsplit
      exact ⟨comma, hchars, by rw [hrest, List.cons_append]⟩

variable {table : CommandTable} {source : String}

/-- A tree that reads as a comma is one. -/
theorem eq_text_comma {ts us : List Tree} {t : Tree}
    (h : (parse table source).trees = ts ++ t :: us) (ht : t.chars = [',']) :
    t = .text [','] := by
  have hpiece : (parse table source).trees = ts ++ ([t] ++ us) := h
  have hsingle := parse_trees_of_piece hpiece
  -- The tree is what its own text is read as, and a single comma is read in one way
  -- only.
  rw [treesChars, treesChars, ht] at hsingle
  have hcomma : (parse table (String.ofList [','])).trees = [.text [',']] := rfl
  exact (List.singleton_inj.mp (hcomma.symm.trans hsingle)).symm

/-- The comma at which a body is cut is text, since no other tree at the top level is
a comma. -/
theorem exists_append_of_splitComma {ts us bs cs : List Tree}
    (h : (parse table source).trees = ts ++ us)
    (hcomma : splitConstraint 0 0 us = some (bs, cs)) :
    us = bs ++ .text [','] :: cs := by
  obtain ⟨t, ht, rfl⟩ := exists_append_of_splitConstraint hcomma
  rw [← List.append_assoc] at h
  rw [eq_text_comma h ht]

/-- **An equation falls into the trees of its parts and the separators between
them.** -/
theorem divides_ofTrees (table : CommandTable) (source : String) :
    (Cut.ofTrees (parse table source).trees).Divides (parse table source).trees
      (EquationParts.ofTrees (parse table source).trees) := by
  rcases hassign : splitAssignment false (parse table source).trees with _ | ⟨ds, rest⟩
  · rcases hcomma : splitConstraint 0 0 (parse table source).trees with _ | ⟨bs, cs⟩
    · simp only [Cut.ofTrees, EquationParts.ofTrees,
        EquationParts.ofBody, hassign, hcomma]
      rfl
    · have hsplit := exists_append_of_splitComma (List.nil_append _).symm hcomma
      simp only [Cut.ofTrees, EquationParts.ofTrees,
        EquationParts.ofBody, hassign, hcomma]
      exact ⟨bs, cs, hsplit, rfl⟩
  · have htrees := eq_append_of_splitAssignment hassign
    rcases hcomma : splitConstraint 0 0 rest with _ | ⟨bs, cs⟩
    · simp only [Cut.ofTrees, EquationParts.ofTrees,
        EquationParts.ofBody, hassign, hcomma]
      exact ⟨ds, rest, htrees, rfl⟩
    · -- The comma is looked for in what follows the equals sign, so it is a tree of the
      -- source too.
      have hrest : (parse table source).trees = (ds ++ [.text ['=']]) ++ rest := by
        simpa using htrees
      have hsplit := exists_append_of_splitComma hrest hcomma
      simp only [Cut.ofTrees, EquationParts.ofTrees,
        EquationParts.ofBody, hassign, hcomma]
      exact ⟨ds, bs, cs, by rw [htrees, hsplit], rfl⟩

/-! ### Putting the separators back -/

/-- Parts that the trees were divided into restore the source when the separators are
put back. -/
theorem Cut.Divides.restores {ts : List Tree} {p : EquationParts} {cut : Cut}
    (h : cut.Divides ts p) (hts : treesChars ts = source.toList) :
    cut.Restores source p := by
  cases cut with
  | both =>
      obtain ⟨ds, bs, cs, rfl, rfl⟩ := h
      apply String.toList_inj.mp
      simp [EquationParts.textOf, ← hts, treesChars, Tree.chars]
  | assignment =>
      obtain ⟨ds, bs, rfl, rfl⟩ := h
      refine ⟨String.toList_inj.mp ?_, rfl⟩
      simp [EquationParts.textOf, ← hts, treesChars, Tree.chars]
  | comma =>
      obtain ⟨bs, cs, rfl, rfl⟩ := h
      refine ⟨String.toList_inj.mp ?_, rfl⟩
      simp [EquationParts.textOf, ← hts, treesChars, Tree.chars]
  | neither =>
      obtain rfl := h
      refine ⟨String.toList_inj.mp ?_, rfl, rfl⟩
      simp [EquationParts.textOf, ← hts]

/-- The separators that are put back show in how often their characters occur. -/
theorem Cut.Restores.count {p : EquationParts} {cut : Cut} (h : cut.Restores source p) :
    source.toList.count '=' = p.declaration.toList.count '=' + p.body.toList.count '=' +
        p.constraint.toList.count '=' +
          (if cut = .both ∨ cut = .assignment then 1 else 0) ∧
      source.toList.count ',' =
        p.declaration.toList.count ',' + p.body.toList.count ',' +
        p.constraint.toList.count ',' +
          (if cut = .both ∨ cut = .comma then 1 else 0) := by
  cases cut with
  | both =>
      have hsource : source = _ := h
      simp [hsource]
      omega
  | assignment =>
      obtain ⟨hsource, hconstraint⟩ := h
      simp [hsource, hconstraint]
      omega
  | comma =>
      obtain ⟨hsource, hdeclaration⟩ := h
      simp [hsource, hdeclaration]
      omega
  | neither =>
      obtain ⟨hsource, hdeclaration, hconstraint⟩ := h
      simp [hsource, hdeclaration, hconstraint]

/-- A source is restored in one form only, because the forms differ in length. -/
theorem Cut.Restores.unique {p : EquationParts} {cut cut' : Cut}
    (h : cut.Restores source p) (h' : cut'.Restores source p) : cut = cut' := by
  -- Two cuts that differ put back a different number of equals signs or of commas.
  have hcount := h.count
  have hcount' := h'.count
  cases cut <;> cases cut' <;> simp at hcount hcount' ⊢ <;> omega

/-! ### The places of the separators -/

/-- The separators are tokens of the source outside all braces, as they are trees at
the top level. -/
theorem Cut.Divides.separators_outside {p : EquationParts} {cut : Cut}
    (h : cut.Divides (parse table source).trees p) : ∀ t ∈ cut.separators p,
      t ∈ tokenize source ∧ ¬ (matchBraces (tokenize source)).Encloses t.start := by
  have hplace (ts : List Tree) :
      (EquationParts.textOf ts).length = (treesChars ts).length :=
    String.length_ofList
  cases cut with
  | both =>
      obtain ⟨ds, bs, cs, htrees, rfl⟩ := h
      have hcomma : (parse table source).trees = (ds ++ .text ['='] :: bs) ++
          .text [','] :: cs := by
        simpa using htrees
      have hlength : (treesChars (ds ++ .text ['='] :: bs)).length =
          (treesChars ds).length + 1 + (treesChars bs).length := by
        simp [treesChars, Tree.chars]
        omega
      simp only [separators, hplace, List.forall_mem_cons, ← hlength]
      exact ⟨outside_braces htrees, outside_braces hcomma, by simp⟩
  | assignment =>
      obtain ⟨ds, bs, htrees, rfl⟩ := h
      simp only [separators, hplace, List.forall_mem_cons]
      exact ⟨outside_braces htrees, by simp⟩
  | comma =>
      obtain ⟨bs, cs, htrees, rfl⟩ := h
      simp only [separators, hplace, List.forall_mem_cons]
      exact ⟨outside_braces htrees, by simp⟩
  | neither => simp [separators]

/-- Either a source is nested too deeply, and all of it is body, or its trees are
cut. -/
theorem ofSource_cases (table : CommandTable) (source : String) :
    (nestingLimit < (parse table source).depth ∧ Cut.ofSource table source = .neither ∧
        EquationParts.ofSource table source = ⟨"", source, ""⟩) ∨
      ((parse table source).depth ≤ nestingLimit ∧
        (Cut.ofSource table source).Divides (parse table source).trees
          (EquationParts.ofSource table source)) := by
  by_cases hdepth : (parse table source).depth ≤ nestingLimit
  · have hok : parseWithin table source = .ok (parse table source) := if_pos hdepth
    refine .inr ⟨hdepth, ?_⟩
    simp only [Cut.ofSource, EquationParts.ofSource, hok]
    exact divides_ofTrees table source
  · have herror : parseWithin table source = .error .nesting := if_neg hdepth
    refine .inl ⟨not_le.mp hdepth, ?_, ?_⟩
    · simp only [Cut.ofSource, herror]
    · simp only [EquationParts.ofSource, herror]

/-- **Cutting an equation loses nothing.**  Of the ways to put separators back
between the parts, exactly the one that belongs to the cut gives the source; and the
separators are tokens outside of all braces. -/
theorem restores_iff (table : CommandTable) (source : String) :
    (∀ cut : Cut, cut.Restores source (EquationParts.ofSource table source) ↔
      cut = Cut.ofSource table source) ∧
    ∀ t ∈ (Cut.ofSource table source).separators (EquationParts.ofSource table source),
      t ∈ tokenize source ∧ ¬ (matchBraces (tokenize source)).Encloses t.start := by
  have hmade : (Cut.ofSource table source).Restores source
      (EquationParts.ofSource table source) ∧
      ∀ t ∈ (Cut.ofSource table source).separators
        (EquationParts.ofSource table source),
        t ∈ tokenize source ∧ ¬ (matchBraces (tokenize source)).Encloses t.start := by
    rcases ofSource_cases table source with ⟨-, hcut, hparts⟩ | ⟨-, hdivides⟩
    · rw [hcut, hparts]
      exact ⟨⟨rfl, rfl, rfl⟩, by simp [Cut.separators]⟩
    · exact ⟨hdivides.restores (parse_chars table source), hdivides.separators_outside⟩
  refine ⟨fun cut => ⟨fun h => h.unique hmade.1, ?_⟩, hmade.2⟩
  rintro rfl
  exact hmade.1

end Formulary
