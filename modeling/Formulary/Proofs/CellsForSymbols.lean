import Formulary.Proofs.FormulaDomain

/-!
# Cells in the places of symbols

A variable map gives cells to the symbols of an expression.  The same formula comes
out if the cells are written into the expression beforehand and no map is given: a
cell is never looked up again, and a head is never taken for a symbol.  Only a cell
that is also the name of a constant would be read as the constant.

All that writing asks a variable map for is the text of a symbol, so both sides agree
as soon as they agree on the symbols (`sameOutcome_mapSymbols`).

* `Json.withCells` writes the cells into an expression.
* `SameOutcome` compares results by their texts and by the classes of their failures.
* `formula_withCells` is the main statement.
-/

namespace Formulary

/-! ### Replacing symbols -/

namespace Json

mutual

/-- The expression with its symbols replaced; heads stay as they are. -/
def mapSymbols (f : String → String) : Json → Json
  | .null => .null
  | .bool b => .bool b
  | .int n => .int n
  | .float x => .float x
  | .string name => .string (f name)
  | .array items => .array (listMapSymbols f items)
  | .object fields => .object fields

/-- The items of a list with the symbols replaced; a string in front is a head. -/
def listMapSymbols (f : String → String) : List Json → List Json
  | [] => []
  | .string head :: args => .string head :: itemsMapSymbols f args
  | first :: args => first.mapSymbols f :: itemsMapSymbols f args

/-- Items with their symbols replaced. -/
def itemsMapSymbols (f : String → String) : List Json → List Json
  | [] => []
  | item :: rest => item.mapSymbols f :: itemsMapSymbols f rest

end

theorem itemsMapSymbols_eq_map (f : String → String) (items : List Json) :
    itemsMapSymbols f items = items.map (mapSymbols f) := by
  induction items with
  | nil => rfl
  | cons item rest ih => rw [itemsMapSymbols, ih, List.map_cons]

/-- Replacing symbols makes no expression of a value that is none. -/
theorem not_isNode_mapSymbols {table : FormulaTable} (f : String → String) {e : Json}
    (h : ¬ e.IsNode table) : ¬ (e.mapSymbols f).IsNode table := by
  match e with
  | .null | .bool _ | .float _ | .object _ => simpa only [mapSymbols] using h
  | .int _ | .string _ | .array (.string _ :: _) => exact absurd trivial h
  | .array [] | .array (.null :: _) | .array (.bool _ :: _) | .array (.int _ :: _)
  | .array (.float _ :: _) | .array (.array _ :: _) | .array (.object _ :: _) =>
      simp [mapSymbols, listMapSymbols, IsNode]

mutual

/-- Replacing symbols changes no integer. -/
theorem isDescribable_mapSymbols (f : String → String) : (e : Json) →
    (e.mapSymbols f).isDescribable = e.isDescribable
  | .null | .bool _ | .int _ | .float _ | .string _ | .object _ => by
      simp only [mapSymbols, isDescribable]
  | .array items => by
      simp only [mapSymbols, isDescribable, listDescribable_mapSymbols f items]

/-- New symbols in a list leave its integers as they are. -/
theorem listDescribable_mapSymbols (f : String → String) : (items : List Json) →
    itemsDescribable (listMapSymbols f items) = itemsDescribable items
  | [] => rfl
  | first :: args => by
      have hfirst := isDescribable_mapSymbols f first
      have hargs := itemsDescribable_mapSymbols f args
      cases first <;> simp only [listMapSymbols, itemsDescribable, hfirst, hargs]

/-- New symbols in the items of a list leave their integers as they are. -/
theorem itemsDescribable_mapSymbols (f : String → String) : (items : List Json) →
    itemsDescribable (itemsMapSymbols f items) = itemsDescribable items
  | [] => rfl
  | item :: rest => by
      simp only [itemsMapSymbols, itemsDescribable, isDescribable_mapSymbols f item,
        itemsDescribable_mapSymbols f rest]

end

end Json

/-! ### Comparing results -/

/-- The classes of failures. -/
inductive FailureClass where
  /-- A value is no expression. -/
  | unknownNode
  /-- A head has no mapping. -/
  | unsupported
  /-- A head lacks arguments, or the expression is nested too deeply. -/
  | malformed
  /-- An integer has too many digits to be written. -/
  | tooManyDigits
  /-- A template is wrong. -/
  | flawed
  /-- A template names an argument that no number names. -/
  | unknownName
  /-- A template asks for an attribute of an argument. -/
  | unknownAttribute
  /-- A template asks for a part of an argument by something else than a number. -/
  | badIndex
  /-- A template needs an argument that is not there. -/
  | missingArgument
  /-- A function of the table fails in a way of its own. -/
  | raised
  deriving DecidableEq, Repr

/-- The class of a template's failure. -/
def TemplateError.failureClass : TemplateError → FailureClass
  | .flawed _ => .flawed
  | .unknownName _ => .unknownName
  | .unknownAttribute => .unknownAttribute
  | .badIndex => .badIndex
  | .missingArgument => .missingArgument

/-- The class of a failure. -/
def FormulaError.failureClass : FormulaError → FailureClass
  | .unknownNode _ => .unknownNode
  | .unsupported _ => .unsupported
  | .tooFewArguments _ _ | .tooDeep => .malformed
  | .tooManyDigits => .tooManyDigits
  | .badTemplate e => e.failureClass
  | .raised _ => .raised

/-- Two results are equal, or both are failures of one class. -/
inductive SameOutcome {α : Type} : Except FormulaError α → Except FormulaError α → Prop
  | ok (a : α) : SameOutcome (.ok a) (.ok a)
  | error {err err' : FormulaError} (h : err.failureClass = err'.failureClass) :
      SameOutcome (.error err) (.error err')

namespace SameOutcome

/-- What is written twice in the same way has the same outcome. -/
theorem refl {α : Type} (x : Except FormulaError α) : SameOutcome x x := by
  cases x with
  | ok a => exact .ok a
  | error err => exact .error rfl

/-- Steps with the same outcome may be followed by steps with the same outcome. -/
theorem bind {α β : Type} {x y : Except FormulaError α}
    {f g : α → Except FormulaError β} (h : SameOutcome x y)
    (hnext : ∀ a, SameOutcome (f a) (g a)) : SameOutcome (x >>= f) (y >>= g) := by
  cases h with
  | ok a => exact hnext a
  | error h => exact .error h

/-- Values are refused alike if both can be described, or neither can. -/
theorem refuse {α : Type} {e e' : Json} (h : e.isDescribable = e'.isDescribable) :
    SameOutcome (.error (Formula.refuse e) : Except FormulaError α)
      (.error (Formula.refuse e')) := by
  unfold Formula.refuse
  rw [h]
  split
  · exact .error rfl
  · exact .error rfl

end SameOutcome

/-! ### Writing with replaced symbols -/

namespace Formula

variable {table : FormulaTable} {vars vars' : VariableMap} {f : String → String}

/-- The arguments of two lists have the same outcome if they have it one by one, each
in its own place. -/
theorem sameOutcome_renderArgs {levels : Nat} {m m' : Mapping}
    (g : Json → Json) {args : List Json} {number : Nat}
    (h : ∀ i arg, args[i]? = some arg →
      SameOutcome (renderNode table vars levels (m.isIndex (number + i)) arg)
        (renderNode table vars' levels (m'.isIndex (number + i)) (g arg))) :
    SameOutcome (renderArgs table vars levels m number args)
      (renderArgs table vars' levels m' number (args.map g)) := by
  induction args generalizing number with
  | nil => exact .ok []
  | cons arg args ih =>
      rw [List.map_cons, renderArgs, renderArgs]
      apply (h 0 arg rfl).bind
      intro text
      have hargs : SameOutcome (renderArgs table vars levels m (number + 1) args)
          (renderArgs table vars' levels m' (number + 1) (args.map g)) := by
        apply ih
        intro i found hfound
        rw [Nat.add_right_comm, Nat.add_assoc]
        exact h (i + 1) found hfound
      apply hargs.bind
      intro texts
      exact .ok _

/-- **Writing knows a variable map only by the texts of symbols.**  Where two maps
agree on these, up to a replacement of the symbols, the outcome is the same. -/
theorem sameOutcome_mapSymbols {e : Json}
    (h : ∀ name ∈ e.symbols, renderSymbol table vars' (f name) =
      renderSymbol table vars name)
    (levels : Nat) (inSubscript : Bool) :
    SameOutcome (renderNode table vars levels inSubscript e)
      (renderNode table vars' levels inSubscript (e.mapSymbols f)) := by
  induction e using Json.expression_induction generalizing levels inSubscript with
  | list head args ih =>
      rw [Json.mapSymbols, Json.listMapSymbols]
      cases hm : table.mapping? head with
      | none =>
          rw [renderNode, renderNode, hm]
          exact .refl _
      | some m =>
          cases levels with
          | zero =>
              rw [renderNode, renderNode, hm]
              exact .refl _
          | succ levels =>
              rw [renderNode_list hm, renderNode_list hm]
              rw [Json.itemsMapSymbols_eq_map]
              apply SameOutcome.bind
              · apply sameOutcome_renderArgs
                intro i arg hget
                have harg : arg ∈ args := List.mem_of_getElem? hget
                apply ih arg harg
                intro name hname
                apply h
                rw [Json.symbols]
                exact Json.mem_itemsSymbols.mpr ⟨arg, harg, hname⟩
              · intro texts
                exact .refl _
  | leaf e hleaf =>
      obtain ⟨n, rfl⟩ | ⟨negative, mantissa, exponent, rfl⟩ |
          ⟨negative, constant, rfl, hconstant⟩ | ⟨name, rfl⟩ | hnot :=
        Json.leaf_cases table hleaf
      · rw [Json.mapSymbols, renderNode, renderNode]
        exact .refl _
      · rw [Json.mapSymbols, renderNode, renderNode]
        exact .refl _
      · rw [Json.mapSymbols, renderNode, renderNode]
        exact .refl _
      · rw [Json.mapSymbols, renderNode, renderNode, h name (by simp [Json.symbols])]
        exact .refl _
      · -- The two descriptions may differ, since they show the symbols.
        rw [renderNode_of_not_IsNode hnot,
          renderNode_of_not_IsNode (Json.not_isNode_mapSymbols f hnot)]
        exact .refuse (Json.isDescribable_mapSymbols f e).symm

end Formula

/-! ### Writing cells -/

/-- The cell that a symbol stands for: that of its name, if it is not empty. A
constant stands for no cell. -/
def cellFor? (table : FormulaTable) (vars : VariableMap)
    (name : String) : Option String :=
  match table.constant? name, Assoc.lookup? name vars with
  | none, some cell => if cell.isEmpty then none else some cell
  | _, _ => none

/-- The expression with the cells that its symbols stand for in their places. -/
def Json.withCells (table : FormulaTable) (vars : VariableMap) (e : Json) : Json :=
  e.mapSymbols fun name => (cellFor? table vars name).getD name

/-- A cell that is no constant is written as it stands. -/
theorem renderSymbol_cellFor {table : FormulaTable} {vars : VariableMap} {name : String}
    (h : ∀ cell, cellFor? table vars name = some cell → table.constant? cell = none) :
    Formula.renderSymbol table [] ((cellFor? table vars name).getD name) =
      Formula.renderSymbol table vars name := by
  cases hconstant : table.constant? name with
  | some text => simp [cellFor?, Formula.renderSymbol, hconstant]
  | none =>
      cases hcell : Assoc.lookup? name vars with
      | none => simp [cellFor?, Formula.renderSymbol, hconstant, hcell]
      | some cell =>
          by_cases hempty : cell.isEmpty
          · simp [cellFor?, Formula.renderSymbol, hconstant, hcell, hempty]
          · have hfor : cellFor? table vars name = some cell := by
              simp [cellFor?, hconstant, hcell, hempty]
            simp [Formula.renderSymbol, hfor, h cell hfor, hconstant, hcell, hempty]

/-- **A variable map writes cells in the places of symbols, once.**  Writing them
into the expression and giving no map has the same outcome, unless one of these cells
is the name of a constant. -/
theorem formula_withCells (table : FormulaTable) (vars : VariableMap) (e : Json)
    (h : ∀ name ∈ e.symbols, ∀ cell, cellFor? table vars name = some cell →
      table.constant? cell = none) :
    SameOutcome (formula table vars e) (formula table [] (e.withCells table vars)) := by
  unfold formula Json.withCells
  apply SameOutcome.bind
  · apply Formula.sameOutcome_mapSymbols
    intro name hname
    exact renderSymbol_cellFor (h name hname)
  · intro text
    exact .refl _

/-- A head that is also a symbol, a cell that is named like it, a constant with a
cell, and an empty cell. -/
theorem formula_withCells_once :
    (∀ name ∈ (Json.array [.string "Add", .string "Add", .string "x", .string "Pi",
        .string "y"]).symbols,
      ∀ cell, cellFor? .standard
        [("Add", "B1"), ("x", "Add"), ("Pi", "C1"), ("y", "")] name = some cell →
        FormulaTable.standard.constant? cell = none) ∧
      SameOutcome
        (formula .standard [("Add", "B1"), ("x", "Add"), ("Pi", "C1"), ("y", "")]
          (.array [.string "Add", .string "Add", .string "x",
            .string "Pi", .string "y"]))
        (formula .standard []
          (.array [.string "Add", .string "B1", .string "Add",
            .string "Pi", .string "y"])) ∧
      formula .standard []
          (.array [.string "Add", .string "B1", .string "Add",
            .string "Pi", .string "y"]) =
        .ok "=(B1+Add+PI()+y)" := by
  have hcells : ∀ name ∈
      (Json.array [.string "Add", .string "Add", .string "x", .string "Pi",
      .string "y"]).symbols,
      ∀ cell ∈ cellFor? .standard [("Add", "B1"), ("x", "Add"),
      ("Pi", "C1"), ("y", "")] name, FormulaTable.standard.constant? cell = none := by
        decide
  exact ⟨hcells, formula_withCells .standard
    [("Add", "B1"), ("x", "Add"), ("Pi", "C1"), ("y", "")]
    (.array [.string "Add", .string "Add", .string "x", .string "Pi", .string "y"])
      hcells, rfl⟩

end Formulary
