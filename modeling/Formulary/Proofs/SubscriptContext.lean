import Formulary.Proofs.CellsForSymbols

/-!
# Subscripts and what stands in them

Two factors side by side are one index if they are a subscript, and a product
everywhere else.  That a place is a subscript counts for the list that stands there
and for nothing in it: `renderNode_of_indifferent` says that a list without a way of
writing of its own for subscripts takes no notice, and its arguments get their places
from its own mapping.  So the head for factors side by side can be replaced by the
one for products wherever it is not itself a subscript.

* `Json.mapHeads` renames the heads of an expression.
* `FormulaTable.IsRenaming` says which renamings cannot be noticed outside of
  subscripts, and `sameOutcome_mapHeads` that they are not.
* `formula_withProducts` is the main statement.
-/

namespace Formulary

/-! ### Renaming heads -/

namespace Json

mutual

/-- The value with the heads of its lists renamed, at any depth. -/
def mapHeads (f : String → String) : Json → Json
  | .null => .null
  | .bool b => .bool b
  | .int n => .int n
  | .float x => .float x
  | .string name => .string name
  | .array items => .array (listMapHeads f items)
  | .object fields => .object (fieldsMapHeads f fields)

/-- The items of a list with the heads renamed; a string in front is the head of the
list itself. -/
def listMapHeads (f : String → String) : List Json → List Json
  | [] => []
  | .string head :: args => .string (f head) :: itemsMapHeads f args
  | first :: args => first.mapHeads f :: itemsMapHeads f args

/-- Items with the heads of their lists renamed. -/
def itemsMapHeads (f : String → String) : List Json → List Json
  | [] => []
  | item :: rest => item.mapHeads f :: itemsMapHeads f rest

/-- Fields with the heads of their lists renamed. -/
def fieldsMapHeads (f : String → String) : List (String × Json) → List (String × Json)
  | [] => []
  | (name, value) :: rest => (name, value.mapHeads f) :: fieldsMapHeads f rest

end

theorem itemsMapHeads_eq_map (f : String → String) (items : List Json) :
    itemsMapHeads f items = items.map (mapHeads f) := by
  induction items with
  | nil => rfl
  | cons item rest ih => rw [itemsMapHeads, ih, List.map_cons]

/-- A list gets a new head, and so do its arguments. -/
theorem mapHeads_list (f : String → String) (head : String) (args : List Json) :
    (array (.string head :: args)).mapHeads f =
      .array (.string (f head) :: args.map (mapHeads f)) := by
  rw [mapHeads, listMapHeads, itemsMapHeads_eq_map]

/-- Renaming heads makes no expression of a value that is none. -/
theorem not_isNode_mapHeads {table : FormulaTable} (f : String → String) {e : Json}
    (h : ¬ e.IsNode table) : ¬ (e.mapHeads f).IsNode table := by
  match e with
  | .null | .bool _ | .float _ => simpa only [mapHeads] using h
  | .int _ | .string _ | .array (.string _ :: _) => exact absurd trivial h
  | .object _ | .array [] | .array (.null :: _) | .array (.bool _ :: _)
      | .array (.int _ :: _)
  | .array (.float _ :: _) | .array (.array _ :: _) | .array (.object _ :: _) =>
      simp [mapHeads, listMapHeads, IsNode]

mutual

/-- Renaming heads changes no integer. -/
theorem isDescribable_mapHeads (f : String → String) : (e : Json) →
    (e.mapHeads f).isDescribable = e.isDescribable
  | .null | .bool _ | .int _ | .float _ | .string _ => by
      simp only [mapHeads, isDescribable]
  | .array items => by
      simp only [mapHeads, isDescribable, listDescribable_mapHeads f items]
  | .object fields => by
      simp only [mapHeads, isDescribable, fieldsDescribable_mapHeads f fields]

/-- New heads in a list leave its integers as they are. -/
theorem listDescribable_mapHeads (f : String → String) : (items : List Json) →
    itemsDescribable (listMapHeads f items) = itemsDescribable items
  | [] => rfl
  | first :: args => by
      have hfirst := isDescribable_mapHeads f first
      have hargs := itemsDescribable_mapHeads f args
      cases first <;> simp only [listMapHeads, itemsDescribable, hfirst,
        hargs, isDescribable]

/-- New heads in the items of a list leave their integers as they are. -/
theorem itemsDescribable_mapHeads (f : String → String) : (items : List Json) →
    itemsDescribable (itemsMapHeads f items) = itemsDescribable items
  | [] => rfl
  | item :: rest => by
      simp only [itemsMapHeads, itemsDescribable, isDescribable_mapHeads f item,
        itemsDescribable_mapHeads f rest]

theorem fieldsDescribable_mapHeads (f : String → String) :
    (fields : List (String × Json)) → fieldsDescribable (fieldsMapHeads f fields) =
      fieldsDescribable fields
  | [] => rfl
  | (_, value) :: rest => by
      simp only [fieldsMapHeads, fieldsDescribable, isDescribable_mapHeads f value,
        fieldsDescribable_mapHeads f rest]

end

/-- A renamed value is a list with a head only if the value was one. -/
theorem exists_of_mapHeads_eq_list {f : String → String} {e : Json}
    {head : String} {args : List Json}
    (h : e.mapHeads f = .array (.string head :: args)) : ∃ old, head = f old := by
  match e with
  | .null | .bool _ | .int _ | .float _ | .string _ | .object _ => simp [mapHeads] at h
  | .array (.string old :: _) =>
      rw [mapHeads_list] at h
      cases h
      exact ⟨old, rfl⟩
  | .array [] | .array (.null :: _) | .array (.bool _ :: _) | .array (.int _ :: _)
  | .array (.float _ :: _) | .array (.array _ :: _) | .array (.object _ :: _) =>
      simp [mapHeads, listMapHeads] at h

/-! ### What a subscript changes -/

/-- The value is no list that is written in a way of its own in a subscript. -/
def Indifferent (table : FormulaTable) (e : Json) : Prop :=
  ∀ head args m, e = .array (.string head :: args) → table.mapping? head = some m →
    m.entry.subscriptSymbol = none

/-- The subscripts in an expression are written as they would be elsewhere. -/
def HasIndifferentIndices (table : FormulaTable) (e : Json) : Prop :=
  ∀ head args m, Json.array (.string head :: args) ∈ e.parts →
    table.mapping? head = some m →
    ∀ (i : Nat) (arg : Json), args[i]? = some arg → m.isIndex i = true →
      arg.Indifferent table

/-- What holds of the indices at every depth holds of those in an argument. -/
theorem HasIndifferentIndices.argument {table : FormulaTable}
    {head : String} {args : List Json}
    (h : (array (.string head :: args)).HasIndifferentIndices table) {arg : Json}
    (harg : arg ∈ args) :
    arg.HasIndifferentIndices table := by
  intro other others m hlist
  exact h other others m (mem_parts_list.mpr (.inr ⟨arg, harg, hlist⟩))

end Json

/-- A renaming of heads that cannot be noticed outside of subscripts: a head and its
new name are written alike there and have the same arguments as subscripts.  No new
name has a way of writing of its own for subscripts. -/
structure FormulaTable.IsRenaming (table : FormulaTable) (f : String → String) :
    Prop where
  unmapped : ∀ head, table.mapping? head = none → table.mapping? (f head) = none
  mapped : ∀ head m, table.mapping? head = some m →
    ∃ m', table.mapping? (f head) = some m' ∧
    m'.entry.indexArguments = m.entry.indexArguments ∧ m'.entry.subscriptSymbol = none ∧
    ∀ texts, Formula.applyMapping m' false texts = Formula.applyMapping m false texts

namespace Formula

variable {table : FormulaTable} {vars : VariableMap} {f : String → String}

/-- A mapping without a symbol for subscripts writes the same inside of them. -/
theorem applyMapping_of_subscriptSymbol_eq_none {m : Mapping}
    (h : m.entry.subscriptSymbol = none) (inSubscript : Bool)
    (texts : List (List Char)) :
    applyMapping m inSubscript texts = applyMapping m false texts := by
  cases inSubscript with
  | false => rfl
  | true =>
      unfold applyMapping
      rw [h]

/-- **A subscript ends with the list that stands in it**: a list that is written
there as elsewhere passes nothing of it on to its arguments. -/
theorem renderNode_of_indifferent {e : Json} (h : e.Indifferent table) (levels : Nat)
    (inSubscript : Bool) :
    renderNode table vars levels inSubscript e =
      renderNode table vars levels false e := by
  match e with
  | .array (.string head :: args) =>
      cases hm : table.mapping? head with
      | none => rw [renderNode, renderNode, hm]
      | some m =>
          cases levels with
          | zero => rw [renderNode, renderNode, hm]
          | succ levels =>
              rw [renderNode_list hm, renderNode_list hm]
              congr 1
              funext texts
              exact applyMapping_of_subscriptSymbol_eq_none
                (h head args m rfl hm) inSubscript texts
  | .int _ | .float _ | .string _ => rw [renderNode, renderNode]
  | .null | .bool _ | .object _ | .array [] | .array (.null :: _)
      | .array (.bool _ :: _)
  | .array (.int _ :: _) | .array (.float _ :: _) | .array (.array _ :: _)
      | .array (.object _ :: _) =>
      rw [renderNode, renderNode] <;> simp

/-- No list with a new name is written in a way of its own in a subscript. -/
theorem indifferent_mapHeads (hf : table.IsRenaming f) (e : Json) :
    (e.mapHeads f).Indifferent table := by
  intro head args m he hm
  obtain ⟨old, rfl⟩ := Json.exists_of_mapHeads_eq_list he
  cases hold : table.mapping? old with
  | none =>
      rw [hf.unmapped old hold] at hm
      cases hm
  | some m₀ =>
      obtain ⟨m', hm', -, hsymbol, -⟩ := hf.mapped old m₀ hold
      obtain rfl : m' = m := Option.some.inj (hm'.symm.trans hm)
      exact hsymbol

/-- **A renaming that cannot be noticed outside of subscripts is not noticed** in an
expression whose subscripts are written as they would be elsewhere. -/
theorem sameOutcome_mapHeads (hf : table.IsRenaming f) {e : Json}
    (he : e.HasIndifferentIndices table) (levels : Nat) :
    SameOutcome (renderNode table vars levels false e)
      (renderNode table vars levels false (e.mapHeads f)) := by
  induction e using Json.expression_induction generalizing levels with
  | list head args ih =>
      rw [Json.mapHeads_list]
      cases hm : table.mapping? head with
      | none =>
          rw [renderNode, renderNode, hm, hf.unmapped head hm]
          exact .error rfl
      | some m =>
          obtain ⟨m', hm', hindex, -, happly⟩ := hf.mapped head m hm
          cases levels with
          | zero =>
              rw [renderNode, renderNode, hm, hm']
              exact .refl _
          | succ levels =>
              rw [renderNode_list hm, renderNode_list hm']
              apply SameOutcome.bind
              · apply sameOutcome_renderArgs
                intro i arg hget
                have harg : arg ∈ args := List.mem_of_getElem? hget
                have hsame := ih arg harg (he.argument harg) levels
                rw [Mapping.isIndex, Mapping.isIndex, hindex,
                  renderNode_of_indifferent (indifferent_mapHeads hf arg)]
                cases hplace : m.entry.indexArguments.contains ((0 + i : Nat) : Int) with
                | false => exact hsame
                | true =>
                    have hself := he head args m (Json.mem_parts_self _) hm i arg hget
                      (by rwa [Nat.zero_add] at hplace)
                    rw [renderNode_of_indifferent hself]
                    exact hsame
              · intro texts
                rw [happly]
                exact .refl _
  | leaf e hleaf =>
      obtain ⟨n, rfl⟩ | ⟨negative, mantissa, exponent, rfl⟩ |
          ⟨negative, constant, rfl, hconstant⟩ | ⟨name, rfl⟩ | hnot :=
        Json.leaf_cases table hleaf
      · exact .refl _
      · exact .refl _
      · exact .refl _
      · exact .refl _
      · -- The two descriptions may differ, since they show the heads.
        rw [renderNode_of_not_IsNode hnot,
          renderNode_of_not_IsNode (Json.not_isNode_mapHeads f hnot)]
        exact .refuse (Json.isDescribable_mapHeads f e).symm

end Formula

/-! ### Factors side by side -/

namespace FormulaTable

/-- In the standard table a mapping stands under its own tag. -/
theorem standard_mapping?_tag {head : String} {m : Mapping}
    (h : standard.mapping? head = some m) :
    m ∈ standardMappings ∧ m.tag = head := by
  obtain ⟨m, hmem, heq⟩ := List.mem_map.mp (Assoc.mem_of_lookup? h)
  cases heq
  exact ⟨hmem, rfl⟩

/-- In the standard table only factors side by side are written in a way of their own
in a subscript. -/
theorem standard_subscriptSymbol {head : String} {m : Mapping}
    (h : standard.mapping? head = some m) (hhead : head ≠ "InvisibleOperator") :
    m.entry.subscriptSymbol = none := by
  have hall : ∀ m ∈ standardMappings, m.tag ≠ "InvisibleOperator" →
      m.entry.subscriptSymbol = none := by
    decide
  obtain ⟨hmem, rfl⟩ := standard_mapping?_tag h
  exact hall m hmem hhead

/-- In the standard table only the second argument of a subscript stands in a
subscript. -/
theorem standard_isIndex {head : String} {m : Mapping}
    (h : standard.mapping? head = some m) {i : Nat} (hi : m.isIndex i = true) :
    head = "Subscript" ∧ i = 1 := by
  have hall : ∀ m ∈ standardMappings, m.entry.indexArguments = [] ∨
      m.tag = "Subscript" ∧ m.entry.indexArguments = [1] := by
    decide
  obtain ⟨hmem, rfl⟩ := standard_mapping?_tag h
  rcases hall m hmem with hnone | ⟨htag, hone⟩
  · simp [Mapping.isIndex, hnone] at hi
  · have hone : (i : Int) = 1 := by simpa [Mapping.isIndex, hone] using hi
    exact ⟨htag, by omega⟩

end FormulaTable

/-- The head for factors side by side becomes the one for products. -/
def productHead (head : String) : String :=
  if head = "InvisibleOperator" then "Multiply" else head

/-- The expression with products in the places of factors side by side. -/
def Json.withProducts (e : Json) : Json :=
  e.mapHeads productHead

/-- The two heads of products differ only in subscripts. -/
theorem FormulaTable.isRenaming_productHead :
    FormulaTable.standard.IsRenaming productHead where
  unmapped head h := by
    rw [productHead, if_neg]
    · exact h
    · rintro rfl
      cases h
  mapped head m h := by
    by_cases hhead : head = "InvisibleOperator"
    · subst hhead
      obtain rfl : .operator "InvisibleOperator" "*" (some "") = m := Option.some.inj h
      exact ⟨.operator "Multiply" "*" none, rfl, rfl, rfl, fun _ => rfl⟩
    · rw [productHead, if_neg hhead]
      exact ⟨m, h, rfl, standard_subscriptSymbol h hhead, fun _ => rfl⟩

/-- **Factors side by side are a product unless they are a subscript.**  With
products in their places an expression has the same formula, or fails in the same
way, if none of them is itself the second argument of a subscript.  They may stand
anywhere else: deeper in a subscript, in what the subscript is attached to, or in an
argument that the subscript has no place for. -/
theorem formula_withProducts (vars : VariableMap) (e : Json)
    (h : ∀ args factors, Json.array (.string "Subscript" :: args) ∈ e.parts →
      args[1]? ≠ some (.array (.string "InvisibleOperator" :: factors))) :
    SameOutcome (formula .standard vars e) (formula .standard vars e.withProducts) := by
  have hindices : e.HasIndifferentIndices .standard := by
    intro head args m hlist hm i arg hget hi head' args' m' harg hm'
    obtain ⟨rfl, rfl⟩ := FormulaTable.standard_isIndex hm hi
    refine FormulaTable.standard_subscriptSymbol hm' ?_
    rintro rfl
    exact h args args' hlist (hget.trans (congrArg some harg))
  unfold formula Json.withProducts
  apply (Formula.sameOutcome_mapHeads
    FormulaTable.isRenaming_productHead hindices _).bind
  intro text
  exact .refl _

/-- Factors side by side that a subscript is attached to, inside of a sum that is a
subscript, and in a third argument. -/
theorem formula_withProducts_around :
    let e : Json := .array
      [.string "Subscript", .array [.string "InvisibleOperator", .int 2, .string "a"],
      .array [.string "Add",
      .array [.string "InvisibleOperator", .string "i", .string "j"], .int 1],
      .array [.string "InvisibleOperator", .string "p", .string "q"]]
    (∀ args factors, Json.array (.string "Subscript" :: args) ∈ e.parts →
        args[1]? ≠ some (.array (.string "InvisibleOperator" :: factors))) ∧
      SameOutcome (formula .standard [("i", "B1")] e)
        (formula .standard [("i", "B1")] e.withProducts) ∧
      formula .standard [("i", "B1")] e = .ok "=(2*a)_((B1*j)+1)" := by
  intro e
  have hindices : ∀ args factors, Json.array (.string "Subscript" :: args) ∈ e.parts →
      args[1]? ≠ some (.array (.string "InvisibleOperator" :: factors)) := by
    intro args factors hlist
    obtain rfl : args = _ := by simpa [e, Json.parts, Json.itemsParts] using hlist
    simp
  exact ⟨hindices, formula_withProducts [("i", "B1")] e hindices, by decide +kernel⟩

example :
    let e : Json := .array [.string "Subscript", .string "f",
      .array [.string "InvisibleOperator", .string "a", .string "b"]]
    formula .standard [] e = .ok "=f_ab" ∧ formula .standard [] e.withProducts =
      .ok "=f_(a*b)" := by
  decide +kernel

end Formulary
