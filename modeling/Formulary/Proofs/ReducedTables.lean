import Formulary.Proofs.CellsForSymbols

/-!
# Tables with entries taken out

Some entries of a table may be taken out, as algebra does with heads and constants
that are meant as plain symbols.  An expression that uses none of them is written as
before.  One that uses a head that was taken out fails, because every argument of a
list is written, whether or not its text is used afterwards.  A constant that was
taken out is an ordinary symbol.

* `FormulaTable.Agree` compares two tables in the entries that an expression uses,
  and `renderNode_of_agree` says that writing asks for no others.
* `exists_renderNode_of_mem_parts` is the strictness of writing.
-/

namespace Formulary

/-! ### Entries that an expression uses -/

/-- Two tables have the same entries for all that an expression uses: its heads, its
symbols, and the constants of its infinities. -/
structure FormulaTable.Agree (table table' : FormulaTable) (e : Json) : Prop where
  heads : ∀ head args, Json.array (.string head :: args) ∈ e.parts →
    table.mapping? head = table'.mapping? head
  symbols : ∀ name, Json.string name ∈ e.parts →
    table.constant? name = table'.constant? name
  infinities : ∀ negative, Json.float (.infinity negative) ∈ e.parts →
    table.constant? (Formula.infinityName negative) =
      table'.constant? (Formula.infinityName negative)

/-- Tables that agree for a list agree for its arguments. -/
theorem FormulaTable.Agree.argument {table table' : FormulaTable}
    {head : String} {args : List Json}
    (h : table.Agree table' (.array (.string head :: args))) {arg : Json}
    (harg : arg ∈ args) :
    table.Agree table' arg := by
  have hparts : ∀ part ∈ arg.parts, part ∈ (Json.array (.string head :: args)).parts :=
    fun part hpart => Json.mem_parts_list.mpr (.inr ⟨arg, harg, hpart⟩)
  exact
    { heads := fun other others hlist => h.heads other others (hparts _ hlist)
      symbols := fun name hname => h.symbols name (hparts _ hname)
      infinities := fun negative hinfinity =>
        h.infinities negative (hparts _ hinfinity) }

namespace Formula

variable {table table' : FormulaTable} {vars : VariableMap}

/-- **Writing asks a table only for the entries that the expression uses.** -/
theorem renderNode_of_agree {e : Json} (h : table.Agree table' e) (levels : Nat)
    (inSubscript : Bool) :
    renderNode table vars levels inSubscript e =
      renderNode table' vars levels inSubscript e := by
  induction e using Json.expression_induction generalizing levels inSubscript with
  | list head args ih =>
      have hhead := h.heads head args (Json.mem_parts_self _)
      cases hm : table'.mapping? head with
      | none => rw [renderNode, renderNode, hhead, hm]
      | some m =>
          rw [hm] at hhead
          cases levels with
          | zero => rw [renderNode, renderNode, hhead, hm]
          | succ levels =>
              rw [renderNode_list hhead, renderNode_list hm]
              congr 1
              exact renderArgs_congr
                (fun arg harg place => ih arg harg (h.argument harg) levels place) 0
  -- Of the leaves only infinities and symbols ask the table anything.
  | leaf e hleaf =>
      cases e with
      | int n => rw [renderNode, renderNode]
      | float x =>
          cases x with
          | infinity negative =>
              rw [renderNode, renderNode, renderFloat, renderFloat,
                h.infinities negative (Json.mem_parts_self _)]
          | finite negative mantissa exponent => rw [renderNode, renderNode]; rfl
          | nan => rw [renderNode, renderNode]; rfl
      | string name =>
          rw [renderNode, renderNode, renderSymbol, renderSymbol,
            h.symbols name (Json.mem_parts_self _)]
      | array items =>
          cases items with
          | nil => rw [renderNode, renderNode] <;> simp
          | cons first rest =>
              cases first with
              | string head => exact absurd rfl (hleaf head rest)
              | _ => rw [renderNode, renderNode] <;> simp
      | _ => rw [renderNode, renderNode] <;> simp

/-- **Writing is strict**: if an expression is written, then every expression in it
is. -/
theorem exists_renderNode_of_mem_parts {e part : Json}
    (hpart : part ∈ e.parts) {levels : Nat} {inSubscript : Bool} {text : List Char}
    (h : renderNode table vars levels inSubscript e = .ok text) :
    ∃ levels' place text', renderNode table vars levels' place part = .ok text' := by
  induction e using Json.expression_induction generalizing levels inSubscript text with
  | list head args ih =>
      obtain rfl | ⟨arg, harg, hpart⟩ := Json.mem_parts_list.mp hpart
      · exact ⟨levels, inSubscript, text, h⟩
      · obtain ⟨m, rest, texts, -, -, htexts, -⟩ := exists_mapping_of_renderNode_list h
        obtain ⟨i, hi⟩ := List.mem_iff_getElem?.mp harg
        obtain ⟨found, -, hfound⟩ := exists_getElem?_of_renderArgs htexts hi
        exact ih arg harg hpart hfound
  | leaf e hleaf =>
      rw [Json.parts_leaf hleaf, List.mem_singleton] at hpart
      exact ⟨levels, inSubscript, text, hpart ▸ h⟩

/-- A symbol that is no constant is written as its cell or as it stands. -/
theorem renderSymbol_of_constant?_eq_none {name : String}
    (h : table.constant? name = none) :
    renderSymbol table vars name = ((cellFor? table vars name).getD name).toList := by
  unfold renderSymbol cellFor?
  rw [h]
  cases Assoc.lookup? name vars with
  | none => rfl
  | some cell => by_cases hempty : cell.isEmpty <;> simp [hempty]

end Formula

/-! ### Entries that were taken out -/

section Without

variable {table : FormulaTable} {heads constants : List String}

/-- Whether an expression by itself, without its arguments, needs none of the given
heads and constants. -/
def Json.avoids (heads constants : List String) : Json → Bool
  | .array (.string head :: _) => head ∉ heads
  | .string name => name ∉ constants
  | .float (.infinity negative) => Formula.infinityName negative ∉ constants
  | _ => true

/-- Taking out entries that an expression does not use changes none that it does. -/
theorem FormulaTable.agree_without {e : Json}
    (h : ∀ part ∈ e.parts, part.avoids heads constants = true) :
    (table.without heads constants).Agree table e where
  heads head args hlist := by
    have hhead : head ∉ heads := of_decide_eq_true (h _ hlist)
    rw [mapping?_without, if_neg hhead]
  symbols name hname := by
    have hconstant : name ∉ constants := of_decide_eq_true (h _ hname)
    rw [constant?_without, if_neg hconstant]
  infinities negative hinfinity := by
    have hconstant : Formula.infinityName negative ∉ constants :=
      of_decide_eq_true (h _ hinfinity)
    rw [constant?_without, if_neg hconstant]

/-- A list whose head was taken out cannot be written, wherever it stands in an
expression. -/
theorem exists_formula_without_eq_error {vars : VariableMap} {e : Json}
    {head : String} {args : List Json}
    (hlist : Json.array (.string head :: args) ∈ e.parts) (hhead : head ∈ heads) :
    ∃ err, formula (table.without heads constants) vars e = .error err := by
  cases hformula : formula (table.without heads constants) vars e with
  | error err => exact ⟨err, rfl⟩
  | ok text =>
      obtain ⟨x, hx, -⟩ := exists_of_formula hformula
      obtain ⟨levels, place, y, hy⟩ := Formula.exists_renderNode_of_mem_parts hlist hx
      rw [Formula.renderNode, FormulaTable.mapping?_without, if_pos hhead] at hy
      cases hy

/-- A symbol that is a constant no longer is written like one that never was: as the
cell that both have, or each as it stands. -/
theorem Formula.renderSymbol_without {vars vars' : VariableMap} {constant name : String}
    (hconstant : constant ∈ constants) (hname : table.constant? name = none)
    (hcell : Assoc.lookup? name vars' = Assoc.lookup? constant vars) :
    renderSymbol (table.without heads constants) vars constant =
      ((cellFor? table vars' name).getD constant).toList := by
  have hnone : (table.without heads constants).constant? constant = none := by
    rw [FormulaTable.constant?_without, if_pos hconstant]
  have hsame : cellFor? (table.without heads constants) vars constant =
      cellFor? table vars' name := by
    unfold cellFor?
    rw [hnone, hname, hcell]
  rw [renderSymbol_of_constant?_eq_none hnone, hsame]

end Without

/-- **Taking entries out of a table is conservative.**  An expression that uses none
of them has the formula or the failure that it had before.  An expression with a head
that was taken out has no formula, at whatever depth the head stands.  And a constant
that was taken out is written like a symbol that the table never knew and that has
the same cell: as that cell, or as it stands if there is none. -/
theorem formula_without (table : FormulaTable) (heads constants : List String)
    (vars : VariableMap) (e : Json) :
    ((∀ part ∈ e.parts, part.avoids heads constants = true) →
        formula (table.without heads constants) vars e = formula table vars e) ∧
      (∀ head ∈ heads, ∀ args, Json.array (.string head :: args) ∈ e.parts →
        ∃ err, formula (table.without heads constants) vars e = .error err) ∧
      ∀ constant ∈ constants, ∀ name vars', table.constant? name = none →
        Assoc.lookup? name vars' = Assoc.lookup? constant vars → ∀ levels inSubscript,
          Formula.renderNode table vars' levels inSubscript (.string name) =
              .ok ((cellFor? table vars' name).getD name).toList ∧
            Formula.renderNode (table.without heads constants) vars levels inSubscript
                (.string constant) =
              .ok ((cellFor? table vars' name).getD constant).toList := by
  refine ⟨fun havoids => ?_, fun head hhead args hlist => ?_, ?_⟩
  · unfold formula
    rw [Formula.renderNode_of_agree (FormulaTable.agree_without havoids)]
  · exact exists_formula_without_eq_error hlist hhead
  · intro constant hconstant name vars' hname hcell levels inSubscript
    rw [Formula.renderNode, Formula.renderNode,
      Formula.renderSymbol_of_constant?_eq_none hname,
      Formula.renderSymbol_without hconstant hname hcell]
    exact ⟨rfl, rfl⟩

/-- In algebra without the sine and two constants: a sum with an infinity and a
constant that are still there, a sine inside of a template that has no place for it,
and the name of a constant with a cell. -/
theorem formula_without_algebra :
    let mode : AlgebraMode := ⟨["Sin"], ["Pi", "PositiveInfinity"]⟩
    let sum : Json := .array
      [.string "Add", .float (.infinity true), .string "ExponentialE"]
    let sine : Json :=
      .array [.string "Negate", .int 1, .array [.string "Sin", .string "x"]]
    (∀ part ∈ sum.parts, part.avoids mode.heads mode.constants = true) ∧
      formula (mode.apply .standard) [] sum = formula .standard [] sum ∧
      (∃ err, formula (mode.apply .standard) [] sine = .error err) ∧
      FormulaTable.standard.constant? "r" = none ∧
      Formula.renderNode (mode.apply .standard) [("Pi", "A1")] 0 false (.string "Pi") =
        .ok ['A', '1'] := by
  intro mode sum sine
  have havoids : ∀ part ∈ sum.parts, part.avoids mode.heads mode.constants = true := by
    decide
  have hsine : Json.array [.string "Sin", .string "x"] ∈ sine.parts :=
    Json.mem_parts_list.mpr (.inr ⟨_, by simp, Json.mem_parts_self _⟩)
  obtain ⟨hsame, -, -⟩ := formula_without .standard mode.heads mode.constants [] sum
  obtain ⟨-, hfails, -⟩ := formula_without .standard mode.heads mode.constants [] sine
  obtain ⟨-, -, hsymbol⟩ :=
    formula_without .standard mode.heads mode.constants [("Pi", "A1")] sum
  have hcircle := hsymbol "Pi" (by decide) "r" [("r", "A1")] (by decide) rfl 0 false
  exact ⟨havoids, hsame havoids, hfails "Sin" (by decide) _ hsine, by decide, hcircle.2⟩

end Formulary
