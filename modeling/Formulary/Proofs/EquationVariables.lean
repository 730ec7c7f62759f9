import Formulary.Proofs.Extraction
import Formulary.Proofs.Splitting

/-!
# The variables of an equation and of its parts

An equation has the variables of its parts and no others.  The parts are read like
the equation (`parse_trees_of_append`), nothing that they contribute depends on where
they stand, and a separator ends whatever stands in front of it.
-/

namespace Formulary

open Formulary.Markup

namespace Markup

/-- Trees in a row are as deep as the deepest of them. -/
theorem treesDepth_append (ts us : List Tree) :
    treesDepth (ts ++ us) = max (treesDepth ts) (treesDepth us) := by
  induction ts with
  | nil => simp [treesDepth]
  | cons t ts ih => rw [List.cons_append, treesDepth, treesDepth, ih, max_assoc]

theorem treesNodes_text_cons (start : Nat) (c : Char) (ts : List Tree) :
    treesNodes start (.text [c] :: ts) =
      .text [c] (some ⟨start, start + 1⟩) :: treesNodes (start + 1) ts := rfl

end Markup

namespace Variable

variable {table : CommandTable} {source : String}

/-- A character that is no letter contributes nothing and keeps apart what stands on
its two sides. -/
theorem mem_variables_around {x : String} {ts us : List Tree} {c : Char}
    (hc : c.isAlpha = false) :
    x ∈ variablesOfNodes table (treesNodes 0 (ts ++ .text [c] :: us)) ↔
      x ∈ variablesOfNodes table (treesNodes 0 ts) ∨
        x ∈ variablesOfNodes table (treesNodes 0 us) := by
  have hnames : nodesNames table none (treesNodes 0 (ts ++ .text [c] :: us)) =
      nodesNames table none (treesNodes 0 ts) ++
        nodesNames table none (treesNodes 0 us) := by
    -- The separator starts a stretch, adds no name to it, and what follows it only
    -- moves.
    rw [treesNodes_append, treesNodes_text_cons,
      nodesNames_append none _ _ (by simp [continuesBase]), nodesNames,
      ← Nat.add_zero (_ + 1), treesNodes_add, nodesNames_shift]
    simp [nodeNames, hc, flush]
  simp only [mem_variablesOfNodes, hnames, List.mem_append]
  exact or_and_right

/-- The variables of a piece of a source are those of its trees. -/
theorem variablesOfSource_of_piece {ts us vs : List Tree}
    (h : (parse table source).trees = ts ++ (us ++ vs))
    (hdepth : (parse table source).depth ≤ nestingLimit) :
    variablesOfSource table (EquationParts.textOf us) =
      variablesOfNodes table (treesNodes 0 us) := by
  have htrees : (parse table (EquationParts.textOf us)).trees = us :=
    parse_trees_of_piece h
  have hpiece : treesDepth us ≤ nestingLimit := by
    rw [Document.depth, h, treesDepth_append, treesDepth_append] at hdepth
    omega
  have hok : parseWithin table (EquationParts.textOf us) =
      .ok (parse table (EquationParts.textOf us)) :=
    if_pos (by rwa [Document.depth, htrees])
  rw [variablesOfSource, hok]
  simp only [Document.nodes, htrees]

theorem variablesOfSource_empty : variablesOfSource table "" = [] := rfl

/-- The variables of the trees of an equation are those of its parts. -/
theorem mem_variables_of_divides {x : String} {cut : Cut} {p : EquationParts}
    (h : cut.Divides (parse table source).trees p)
    (hdepth : (parse table source).depth ≤ nestingLimit) :
    x ∈ variablesOfNodes table (treesNodes 0 (parse table source).trees) ↔
      x ∈ variablesOfSource table p.declaration ∨ x ∈ variablesOfSource table p.body ∨
        x ∈ variablesOfSource table p.constraint := by
  cases cut with
  | both =>
      obtain ⟨ds, bs, cs, htrees, rfl⟩ := h
      -- Each part is a piece of the whole row, and a piece is read alone as it is in
      -- the row.
      have hd : (parse table source).trees = [] ++ (ds ++ _) := htrees
      have hb : (parse table source).trees =
          (ds ++ [.text ['=']]) ++ (bs ++ .text [','] :: cs) := by
        simpa using htrees
      have hc : (parse table source).trees =
          (ds ++ .text ['='] :: (bs ++ [.text [',']])) ++ (cs ++ []) := by
        simpa using htrees
      rw [htrees, mem_variables_around (by decide), mem_variables_around (by decide),
        variablesOfSource_of_piece hd hdepth, variablesOfSource_of_piece hb hdepth,
        variablesOfSource_of_piece hc hdepth]
  | assignment =>
      obtain ⟨ds, bs, htrees, rfl⟩ := h
      have hd : (parse table source).trees = [] ++ (ds ++ _) := htrees
      have hb : (parse table source).trees = (ds ++ [.text ['=']]) ++ (bs ++ []) := by
        simpa using htrees
      rw [htrees, mem_variables_around (by decide),
        variablesOfSource_of_piece hd hdepth, variablesOfSource_of_piece hb hdepth]
      simp [variablesOfSource_empty]
  | comma =>
      obtain ⟨bs, cs, htrees, rfl⟩ := h
      have hb : (parse table source).trees = [] ++ (bs ++ _) := htrees
      have hc : (parse table source).trees = (bs ++ [.text [',']]) ++ (cs ++ []) := by
        simpa using htrees
      rw [htrees, mem_variables_around (by decide),
        variablesOfSource_of_piece hb hdepth, variablesOfSource_of_piece hc hdepth]
      simp [variablesOfSource_empty]
  | neither =>
      obtain rfl := h
      have hb : (parse table source).trees =
          [] ++ ((parse table source).trees ++ []) := by simp
      rw [variablesOfSource_of_piece hb hdepth]
      simp [variablesOfSource_empty]

/-- **The variables of an equation are those of its parts**, each once and in
increasing order. -/
theorem variables_of_parts (table : CommandTable) (source : String) :
    (variablesOfSource table source).Pairwise (· < ·) ∧
      ∀ x : String, x ∈ variablesOfSource table source ↔
        x ∈ variablesOfSource table (EquationParts.ofSource table source).declaration ∨
          x ∈ variablesOfSource table (EquationParts.ofSource table source).body ∨
            x ∈ variablesOfSource table
              (EquationParts.ofSource table source).constraint := by
  rcases ofSource_cases table source with ⟨hdeep, -, hparts⟩ | ⟨hdepth, hdivides⟩
  · have herror : parseWithin table source = .error .nesting :=
      if_neg (not_le.mpr hdeep)
    have hnone : variablesOfSource table source = [] := by
      rw [variablesOfSource, herror]
    rw [hparts]
    simp [hnone, variablesOfSource_empty]
  · have hok : parseWithin table source = .ok (parse table source) := if_pos hdepth
    have hnodes : variablesOfSource table source =
        variablesOfNodes table (treesNodes 0 (parse table source).trees) := by
      rw [variablesOfSource, hok]
      rfl
    rw [hnodes]
    exact ⟨pairwise_variablesOfNodes _ _,
      fun x => mem_variables_of_divides hdivides hdepth⟩

end Variable

end Formulary
