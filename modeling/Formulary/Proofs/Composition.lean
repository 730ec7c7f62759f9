import Formulary.Proofs.Lookahead
import Formulary.Proofs.Places

/-!
# Cutting a source between two nodes

A source may be cut where one of its top-level nodes starts or ends: the nodes of the
two pieces are the nodes of the whole, those of the second piece moved to where it
stands, and so are the warnings.

The cut replaces what follows the first piece by the end of the source.  That no
command and no run of characters notices it is `treesRead_nil`; what is left to do
here is to move trees to another place.

* `parse_trees_of_append` cuts trees.
* `nodes_at_boundary` cuts nodes and warnings.
-/

namespace Formulary.Markup

/-! ### Cutting trees -/

variable {table : CommandTable} {source : String}

/-- **The pieces of a source are read like the source**: where its trees fall into
two parts, each part is what the text of the part is read as. -/
theorem parse_trees_of_append {ts us : List Tree}
    (h : (parse table source).trees = ts ++ us) :
    (parse table (String.ofList (treesChars ts))).trees = ts ∧
      (parse table (String.ofList (treesChars us))).trees = us := by
  have hreads := parse_reads table source
  rw [h, treesRead_append] at hreads
  have hlex := parse_lexemes table source
  rw [h, treesLexemes_append] at hlex
  obtain ⟨hfirst, hsecond⟩ := lex_append hlex.symm
  rw [lexemesText_treesLexemes] at hfirst hsecond
  constructor
  · -- What followed the first part is gone; its reading does not depend on it.
    rw [parse, String.toList_ofList, hfirst]
    exact readTrees_treesLexemes (treesRead_nil hreads.1)
  · rw [parse, String.toList_ofList, hsecond]
    exact readTrees_treesLexemes hreads.2

/-- A stretch of top-level trees is read from its own text as it is in the source. -/
theorem parse_trees_of_piece {ts us vs : List Tree}
    (h : (parse table source).trees = ts ++ (us ++ vs)) :
    (parse table (String.ofList (treesChars us))).trees = us :=
  (parse_trees_of_append (parse_trees_of_append h).2).1

/-! ### Cutting nodes -/

/-- A node starts or ends at an offset. -/
def Boundary (nodes : List Node) (k : Nat) : Prop :=
  ∃ n ∈ nodes, ∃ span ∈ n.span, k = span.start ∨ k = span.stop

instance (nodes : List Node) (k : Nat) : Decidable (Boundary nodes k) :=
  inferInstanceAs (Decidable
    (∃ n ∈ nodes, ∃ span ∈ n.span, k = span.start ∨ k = span.stop))

/-- Trees fall into two parts at every boundary of their nodes. -/
theorem exists_append_of_boundary {k start : Nat} {ts : List Tree}
    (h : Boundary (treesNodes start ts) k) :
    ∃ us vs, ts = us ++ vs ∧ k = start + (treesChars us).length := by
  induction ts generalizing start with
  | nil =>
      obtain ⟨n, hn, -⟩ := h
      simp [treesNodes] at hn
  | cons t ts ih =>
      obtain ⟨n, hn, span, hspan, hk⟩ := h
      rcases List.mem_cons.mp hn with rfl | hn
      · rw [t.span_node] at hspan
        obtain rfl := Option.mem_some.mp hspan
        rcases hk with rfl | rfl
        · exact ⟨[], t :: ts, rfl, rfl⟩
        · exact ⟨[t], ts, rfl, by simp [treesChars, Tree.width]⟩
      · obtain ⟨us, vs, rfl, rfl⟩ := ih ⟨n, hn, span, hspan, hk⟩
        exact ⟨t :: us, vs, rfl, by simp [treesChars, Tree.width, Nat.add_assoc]⟩

/-- **A source may be cut at every boundary between its nodes.** -/
theorem nodes_at_boundary (table : CommandTable) (source : String) (k : Nat)
    (hk : Boundary (parse table source).nodes k) :
    (parse table source).nodes =
        (parse table (String.ofList (source.toList.take k))).nodes ++
          (parse table (String.ofList (source.toList.drop k))).nodes.map
            (Node.shift k) ∧
      (parse table source).warnings =
        (parse table (String.ofList (source.toList.take k))).warnings ++
          (parse table (String.ofList (source.toList.drop k))).warnings.map
            (Warning.shift k) := by
  obtain ⟨ts, us, hsplit, rfl⟩ := exists_append_of_boundary hk
  obtain ⟨hfirst, hsecond⟩ := parse_trees_of_append hsplit
  have hchars := parse_chars table source
  rw [hsplit, treesChars_append] at hchars
  rw [← hchars, Nat.zero_add, List.take_left, List.drop_left]
  simp only [Document.nodes, Document.warnings, hsplit, hfirst, hsecond]
  rw [treesNodes_append, treesWarnings_append, Nat.zero_add,
    ← Nat.add_zero (treesChars ts).length, treesNodes_add, treesWarnings_add,
    nodesShift_eq_map, Nat.add_zero]
  exact ⟨rfl, rfl⟩

/-- A cut between an argument that is not closed and the stray brace that it stops
at. -/
theorem nodes_at_boundary_stray :
    Boundary (parse { signatures := [("sqrt", "o m")] } "\\sqrt[x\x7d+_").nodes 7 ∧
      (parse { signatures := [("sqrt", "o m")] } "\\sqrt[x\x7d+_").nodes =
        (parse { signatures := [("sqrt", "o m")] } "\\sqrt[x").nodes ++
          (parse { signatures := [("sqrt", "o m")] } "\x7d+_").nodes.map
            (Node.shift 7) ∧
      (parse { signatures := [("sqrt", "o m")] } "\\sqrt[x\x7d+_").warnings =
        (parse { signatures := [("sqrt", "o m")] } "\\sqrt[x").warnings ++
          (parse { signatures := [("sqrt", "o m")] } "\x7d+_").warnings.map
            (Warning.shift 7) := by
  have hk : Boundary
      (parse { signatures := [("sqrt", "o m")] } "\\sqrt[x\x7d+_").nodes 7 :=
    by decide +kernel
  have htake : String.ofList ("\\sqrt[x\x7d+_".toList.take 7) = "\\sqrt[x" := by decide
  have hdrop : String.ofList ("\\sqrt[x\x7d+_".toList.drop 7) = "\x7d+_" := by decide
  have hcut := nodes_at_boundary { signatures := [("sqrt", "o m")] }
    "\\sqrt[x\x7d+_" 7 hk
  rw [htake, hdrop] at hcut
  exact ⟨hk, hcut⟩

end Formulary.Markup
