import Mathlib.Data.List.Sort
import Mathlib.Data.String.Basic
import Formulary.Command.Standard
import Formulary.Proofs.Outline

/-!
# The variables of nodes

What is shared by the statements about variables:

* variables are listed in increasing order (`pairwise_variablesOfNodes`);
* nodes fall into stretches, each with variables of its own, wherever a node is no
  script that continues the one in front of it (`nodesNames_append`).

The variables of nodes are therefore those of their stretches, in whatever order
these stand (`variables_of_stretches`).
-/

namespace Formulary

open Formulary.Markup

/-! ### Sets of names -/

/-- Inserting a name keeps names in order and apart. -/
theorem NameSet.pairwise_insert {name : String} {names : List String}
    (h : names.Pairwise (· < ·)) : (NameSet.insert name names).Pairwise (· < ·) := by
  induction names with
  | nil => exact List.pairwise_singleton _ _
  | cons first rest ih =>
      obtain ⟨hfirst, hrest⟩ := List.pairwise_cons.mp h
      unfold NameSet.insert
      split_ifs with hlt heq
      · refine List.pairwise_cons.mpr ⟨fun x hx => ?_, h⟩
        rcases List.mem_cons.mp hx with rfl | hx
        · exact hlt
        · exact hlt.trans (hfirst x hx)
      · exact h
      · -- The name is larger than the first one, so the first one stays in front.
        refine List.pairwise_cons.mpr ⟨fun x hx => ?_, ih hrest⟩
        rcases NameSet.mem_insert.mp hx with rfl | hx
        · exact lt_of_le_of_ne (not_lt.mp hlt) (Ne.symm heq)
        · exact hfirst x hx

/-- A set of names is in order and has no name twice. -/
theorem NameSet.pairwise_ofList (names : List String) :
    (NameSet.ofList names).Pairwise (· < ·) := by
  induction names with
  | nil => exact List.Pairwise.nil
  | cons name names ih => exact NameSet.pairwise_insert ih

namespace Variable

variable {table : CommandTable}

/-- The variables of nodes are listed in increasing order. -/
theorem pairwise_variablesOfNodes (table : CommandTable) (nodes : List Node) :
    (variablesOfNodes table nodes).Pairwise (· < ·) :=
  NameSet.pairwise_ofList _

/-- The variables of nodes are their names that are no constants. -/
theorem mem_variablesOfNodes {x : String} {nodes : List Node} :
    x ∈ variablesOfNodes table nodes ↔
      x.toList ∈ nodesNames table none nodes ∧ table.isConstant x = false := by
  simp only [variablesOfNodes, NameSet.mem_ofList, List.mem_filter, List.mem_map,
    Bool.not_eq_true']
  refine and_congr_left fun _ => ⟨?_, fun h => ⟨_, h, String.ofList_toList⟩⟩
  rintro ⟨name, hname, rfl⟩
  rwa [String.toList_ofList]

/-! ### Stretches -/

/-- Whether a node can continue the base in front of it: a script mark with an
argument. -/
def continuesBase : Node → Bool
  | .command name (_ :: _) _ => isScriptName name
  | _ => false

/-- A node that continues nothing ends the candidate in front of it and starts
afresh. -/
theorem nodeNames_of_not_continuesBase {n : Node} (h : continuesBase n = false)
    (cur : Option Candidate) :
    nodeNames table cur n =
      (flush cur ++ (nodeNames table none n).1, (nodeNames table none n).2) := by
  match n, h with
  | .text [] _, _ => simp [nodeNames, flush]
  | .text [_] _, _ => simp [nodeNames, flush]
  | .text (_ :: _ :: _) _, _ => simp [nodeNames, flush]
  | .blank _ _, _ => simp [nodeNames, flush]
  | .comment _ _, _ => simp [nodeNames, flush]
  | .group _ _, _ => simp [nodeNames, flush]
  | .command _ [] _, _ => simp [nodeNames, flush]
  | .command name (.mk _ _ content :: _) _, h =>
      simp only [continuesBase, isScriptName, Bool.or_eq_false_iff,
        decide_eq_false_iff_not] at h
      -- The name is neither mark, so the candidate is not even looked at.
      simp only [nodeNames, subscriptOf?, superscriptOf?, h.1, h.2, if_false]
      cases commandBase? table name content <;> simp [flush]

/-- Nodes that start with one that continues nothing are a stretch of their own. -/
theorem nodesNames_append (cur : Option Candidate) (ns ms : List Node)
    (h : ∀ n ∈ ms.head?, continuesBase n = false) :
    nodesNames table cur (ns ++ ms) = nodesNames table cur ns ++
      nodesNames table none ms := by
  induction ns generalizing cur with
  | nil =>
      cases ms with
      | nil => simp [nodesNames, flush]
      | cons n ms =>
          rw [List.nil_append, nodesNames, nodesNames, nodesNames,
            nodeNames_of_not_continuesBase (h n rfl) cur, List.append_assoc]
  | cons n ns ih =>
      rw [List.cons_append, nodesNames, nodesNames, ih, List.append_assoc]

/-- Nodes that continue nothing wherever they are put: they do not start with a
script mark that has an argument. -/
def StartsAfresh (ns : List Node) : Prop :=
  ∀ n ∈ ns.head?, continuesBase n = false

/-- Stretches in a row start afresh if each of them does. -/
theorem StartsAfresh.flatten {stretches : List (List Node)}
    (h : ∀ ns ∈ stretches, StartsAfresh ns) : StartsAfresh stretches.flatten := by
  induction stretches with
  | nil => exact fun n hn => by simp at hn
  | cons ns stretches ih =>
      cases ns with
      | nil => exact ih fun ms hms => h ms (List.mem_cons_of_mem _ hms)
      | cons n ns => exact h (n :: ns) List.mem_cons_self

/-- What starts afresh adds its variables and changes no others. -/
theorem mem_variables_append {x : String} {ns ms : List Node} (h : StartsAfresh ms) :
    x ∈ variablesOfNodes table (ns ++ ms) ↔
      x ∈ variablesOfNodes table ns ∨ x ∈ variablesOfNodes table ms := by
  rw [mem_variablesOfNodes, mem_variablesOfNodes, mem_variablesOfNodes,
    nodesNames_append none ns ms h, List.mem_append]
  exact or_and_right

/-- The variables of stretches that start afresh are those of each of them. -/
theorem mem_variables_flatten {x : String} {stretches : List (List Node)}
    (h : ∀ ns ∈ stretches, StartsAfresh ns) :
    x ∈ variablesOfNodes table stretches.flatten ↔
      ∃ ns ∈ stretches, x ∈ variablesOfNodes table ns := by
  induction stretches with
  | nil => simp [mem_variablesOfNodes, nodesNames, flush]
  | cons ns stretches ih =>
      have hrest : ∀ ms ∈ stretches, StartsAfresh ms :=
        fun ms hms => h ms (List.mem_cons_of_mem _ hms)
      rw [List.flatten_cons,
        mem_variables_append (StartsAfresh.flatten hrest), ih hrest]
      simp

/-- Stretches have the same variables in every order. -/
theorem variablesOfNodes_flatten_perm {stretches stretches' : List (List Node)}
    (h : ∀ ns ∈ stretches, StartsAfresh ns) (hperm : stretches.Perm stretches') :
    variablesOfNodes table stretches.flatten =
      variablesOfNodes table stretches'.flatten := by
  have h' : ∀ ns ∈ stretches', StartsAfresh ns :=
    fun ns hns => h ns (hperm.mem_iff.mpr hns)
  -- Both lists are increasing, so it is enough that they have the same members.
  apply (pairwise_variablesOfNodes _ _).eq_of_mem_iff (pairwise_variablesOfNodes _ _)
  intro x
  rw [mem_variables_flatten h, mem_variables_flatten h']
  exact exists_congr fun ns => and_congr_left fun _ => hperm.mem_iff

/-- **The naming of variables is local**, whatever the table.  Nodes that start
afresh add their variables to those of the nodes in front of them, and all are listed
in increasing order; in which order such stretches stand does not matter; and no
variable is listed twice or is a constant. -/
theorem variables_of_stretches (table : CommandTable) (ns ms : List Node)
    (h : StartsAfresh ms) :
    ((variablesOfNodes table (ns ++ ms)).Pairwise (· < ·) ∧
        ∀ x : String, x ∈ variablesOfNodes table (ns ++ ms) ↔
          x ∈ variablesOfNodes table ns ∨ x ∈ variablesOfNodes table ms) ∧
      (∀ stretches stretches' : List (List Node), (∀ ns ∈ stretches, StartsAfresh ns) →
        stretches.Perm stretches' →
          variablesOfNodes table stretches.flatten =
            variablesOfNodes table stretches'.flatten) ∧
      ∀ nodes : List Node, (variablesOfNodes table nodes).Nodup ∧
        ∀ x ∈ variablesOfNodes table nodes, table.isConstant x = false := by
  refine ⟨⟨pairwise_variablesOfNodes _ _, fun x => mem_variables_append h⟩, ?_,
    fun nodes => ⟨?_, ?_⟩⟩
  · intro stretches stretches' hstretches hperm
    exact variablesOfNodes_flatten_perm hstretches hperm
  · exact (pairwise_variablesOfNodes _ _).imp fun hlt => hlt.ne
  · intro x hx
    exact (mem_variablesOfNodes.mp hx).2

/-- A script mark without an argument starts afresh, and so the superscript behind it
is not one of the letter in front of it: its content has a variable of its own. -/
theorem variables_of_stretches_detached :
    StartsAfresh [.command "_" [] none,
      .command "^" [.mk "\x7b" "\x7d" [.text ['y'] none]] none] ∧
      "y" ∈ variablesOfNodes .standard ([.text ['x'] none] ++
        [.command "_" [] none,
          .command "^" [.mk "\x7b" "\x7d" [.text ['y'] none]] none]) := by
  have hfresh : StartsAfresh
      [.command "_" [] none,
        .command "^" [.mk "\x7b" "\x7d" [.text ['y'] none]] none] := by
    simp [StartsAfresh, continuesBase]
  exact ⟨hfresh, ((variables_of_stretches .standard _ _ hfresh).1.2 "y").mpr
    (.inr (by decide +kernel))⟩

end Variable

end Formulary
