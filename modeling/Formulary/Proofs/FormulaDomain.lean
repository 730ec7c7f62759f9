import Formulary.Formula.Standard
import Formulary.Proofs.PlainTemplates
import Formulary.Proofs.Rendering

/-!
# The expressions that have a formula

`Renderable` says which expressions have a formula and `FirstFault` which fault of
any other expression is met first, both without reference to the text that is
written.  The two leave no expression out (`Renderable.or_fault`), so it is enough
that writing agrees with each of them.

An integer with too many digits cannot be written, neither as a number nor in the
message about a value that is no expression.  So it stands between the faults of
expressions, though it says nothing about them (`long_integers_unwritten`); where
there is none, the faults are those of expressions alone.
-/

namespace Formulary

open Formulary.Template

/-! ### Plain tables -/

/-- A way of writing that is no function of the library's user and whose template, if
it has one, is plain; `needs` are the numbers of the arguments that it cannot do
without. -/
inductive Renderer.Plain : Renderer → List Nat → Prop
  | join (symbol : String) : Plain (.join symbol) []
  | call (name : String) : Plain (.call name) []
  | template {text : String} {ps : List Part} (h : Template.Plain text.toList ps) :
      Plain (.template text) (partNumbers ps)

/-- A table in which every head is written plainly. -/
def FormulaTable.Plain (t : FormulaTable) : Prop :=
  ∀ head m, t.mapping? head = some m → ∃ needs, m.renderer.Plain needs

/-- The kinds of mappings in the standard table. -/
theorem FormulaTable.standard_mapping?_cases {head : String} {m : Mapping}
    (h : standard.mapping? head = some m) :
    m ∈ standardOperators ∨ (∃ c ∈ standardCalls, m = .call c.1 c.2) ∨
      ∃ t ∈ standardTemplates, m = .template t.1 t.2.1 t.2.2 := by
  obtain ⟨m, hmem, heq⟩ := List.mem_map.mp (Assoc.mem_of_lookup? h)
  cases heq
  simp only [standardMappings, List.mem_append, List.mem_map] at hmem
  obtain (hmem | ⟨c, hc, rfl⟩) | ⟨t, ht, rfl⟩ := hmem
  · exact .inl hmem
  · exact .inr (.inl ⟨c, hc, rfl⟩)
  · exact .inr (.inr ⟨t, ht, rfl⟩)

theorem FormulaTable.standardTemplates_plain :
    ∀ t ∈ standardTemplates, ∃ ps, Template.Plain t.2.1.toList ps := by
  have hparts : ∀ t ∈ standardTemplates, (partsFrom? none t.2.1.toList).isSome := by
    decide
  intro t ht
  obtain ⟨ps, hps⟩ := Option.isSome_iff_exists.mp (hparts t ht)
  exact ⟨ps, plain_of_partsFrom? hps⟩

/-- The standard table is plain. -/
theorem FormulaTable.standard_plain : FormulaTable.standard.Plain := by
  intro head m hm
  obtain hmem | ⟨c, -, rfl⟩ | ⟨t, ht, rfl⟩ := standard_mapping?_cases hm
  · have hjoin : ∀ m ∈ standardOperators, ∃ symbol, m.renderer = .join symbol := by
      simp [standardOperators, Mapping.operator]
    obtain ⟨symbol, hsymbol⟩ := hjoin m hmem
    exact ⟨[], hsymbol ▸ .join symbol⟩
  · exact ⟨[], .call c.2⟩
  · obtain ⟨ps, hps⟩ := standardTemplates_plain t ht
    exact ⟨_, .template hps⟩

/-! ### Renderable expressions and their faults -/

/-- Whether an expression is a number, a symbol or a list with a head, whatever the
head and its arguments. Of the numbers that are not finite, only infinities with a
constant are written. -/
def Json.IsNode (table : FormulaTable) : Json → Prop
  | .int _ => True
  | .float (.finite _ _ _) => True
  | .float (.infinity negative) =>
      (table.constant? (Formula.infinityName negative)).isSome
  | .string _ => True
  | .array (.string _ :: _) => True
  | _ => False

/-- The kinds of expressions that are no list with a head. -/
theorem Json.leaf_cases (table : FormulaTable) {e : Json}
    (hleaf : ∀ head args, e ≠ .array (.string head :: args)) :
    (∃ n, e = .int n) ∨
      (∃ negative mantissa exponent, e = .float (.finite negative mantissa exponent)) ∨
      (∃ negative text, e = .float (.infinity negative) ∧
        table.constant? (Formula.infinityName negative) = some text) ∨
      (∃ name, e = .string name) ∨ ¬ e.IsNode table := by
  match e with
  | .int n => exact .inl ⟨n, rfl⟩
  | .float (.finite negative mantissa exponent) =>
      exact .inr (.inl ⟨negative, mantissa, exponent, rfl⟩)
  | .float (.infinity negative) =>
      cases hconstant : table.constant? (Formula.infinityName negative) with
      | some text => exact .inr (.inr (.inl ⟨negative, text, rfl, hconstant⟩))
      | none => exact .inr (.inr (.inr (.inr (by simp [Json.IsNode, hconstant]))))
  | .string name => exact .inr (.inr (.inr (.inl ⟨name, rfl⟩)))
  | .array (.string head :: args) => exact absurd rfl (hleaf head args)
  | .null | .bool _ | .float .nan | .object _ | .array [] | .array (.null :: _)
      | .array (.bool _ :: _)
  | .array (.int _ :: _) | .array (.float _ :: _) | .array (.array _ :: _)
      | .array (.object _ :: _) =>
      exact .inr (.inr (.inr (.inr id)))

/-- The expressions that have a formula. -/
inductive Renderable (table : FormulaTable) : Json → Prop
  | int {n : Int} (h : n.natAbs < Json.firstLong) : Renderable table (.int n)
  | finite (negative : Bool) (mantissa : Nat) (exponent : Int) :
      Renderable table (.float (.finite negative mantissa exponent))
  | infinity {negative : Bool}
      (h : (table.constant? (Formula.infinityName negative)).isSome) :
      Renderable table (.float (.infinity negative))
  | symbol (name : String) : Renderable table (.string name)
  /-- A head with a mapping, renderable arguments, and all the arguments that the
  mapping needs. -/
  | list {head : String} {args : List Json} {m : Mapping} {needs : List Nat}
      (hm : table.mapping? head = some m) (hplain : m.renderer.Plain needs)
      (hargs : ∀ arg ∈ args, Renderable table arg)
        (hneeds : ∀ n ∈ needs, n < args.length) :
      Renderable table (.array (.string head :: args))

/-- The fault of an expression that is met first: that of the shape and the head of a
list comes before those of its arguments, these come from left to right, and a
missing argument is noticed last. -/
inductive FirstFault (table : FormulaTable) : Json → FormulaError → Prop
  | shape {e : Json} (h : ¬ e.IsNode table) (hshown : e.isDescribable = true) :
      FirstFault table e (.unknownNode e.describe)
  /-- The message would have to show an integer that cannot be written. -/
  | unshown {e : Json} (h : ¬ e.IsNode table) (hshown : e.isDescribable = false) :
      FirstFault table e .tooManyDigits
  | digits {n : Int} (h : Json.firstLong ≤ n.natAbs) :
      FirstFault table (.int n) .tooManyDigits
  | head {head : String} {args : List Json} (h : table.mapping? head = none) :
      FirstFault table (.array (.string head :: args)) (.unsupported head)
  | argument {head : String} {m : Mapping} {before after : List Json} {arg : Json}
      {err : FormulaError} (hm : table.mapping? head = some m)
      (hbefore : ∀ arg ∈ before, Renderable table arg)
        (harg : FirstFault table arg err) :
      FirstFault table (.array (.string head :: (before ++ arg :: after))) err
  | count {head : String} {args : List Json} {m : Mapping} {needs : List Nat} {n : Nat}
      (hm : table.mapping? head = some m) (hplain : m.renderer.Plain needs)
      (hargs : ∀ arg ∈ args, Renderable table arg) (hn : n ∈ needs)
        (hmissing : args.length ≤ n) :
      FirstFault table (.array (.string head :: args))
        (.tooFewArguments m.tag args.length)

/-- A value that is no expression has a fault of its own. -/
theorem exists_fault_of_not_isNode {table : FormulaTable} {e : Json}
    (h : ¬ e.IsNode table) :
    ∃ err, FirstFault table e err := by
  cases hshown : e.isDescribable with
  | true => exact ⟨_, .shape h hshown⟩
  | false => exact ⟨_, .unshown h hshown⟩

/-! ### Writing -/

namespace Formula

variable {table : FormulaTable} {vars : VariableMap}

/-- A plain mapping writes its head if the arguments that it needs are there. -/
theorem exists_applyMapping_eq_ok {m : Mapping} {needs : List Nat}
    (hplain : m.renderer.Plain needs) (inSubscript : Bool) {args : List (List Char)}
    (hneeds : ∀ n ∈ needs, n < args.length) :
    ∃ text, applyMapping m inSubscript args = .ok text := by
  generalize hr : m.renderer = r at hplain
  rw [applyMapping, hr]
  cases hplain with
  | join symbol => cases inSubscript <;>
      cases m.entry.subscriptSymbol <;> exact ⟨_, rfl⟩
  | call name => exact ⟨_, rfl⟩
  | template htext =>
      obtain ⟨text, hfill⟩ := exists_fillParts_eq_ok hneeds
      exact ⟨text, by simp only [fill_of_plain htext, hfill]⟩

/-- Without an argument that it needs, a plain mapping reports the arguments that are
there. -/
theorem applyMapping_eq_error {m : Mapping} {needs : List Nat}
    (hplain : m.renderer.Plain needs) (inSubscript : Bool) {args : List (List Char)}
    {n : Nat} (hn : n ∈ needs) (hmissing : args.length ≤ n) :
    applyMapping m inSubscript args = .error (.tooFewArguments m.tag args.length) := by
  generalize hr : m.renderer = r at hplain
  rw [applyMapping, hr]
  cases hplain with
  | join symbol => cases hn
  | call name => cases hn
  | template htext => simp only [fill_of_plain htext, fillParts_eq_error hn hmissing]

/-- A renderable expression is written. -/
theorem exists_renderNode_eq_ok {e : Json} (h : Renderable table e) {levels : Nat}
    (hlevels : e.height ≤ levels + 1) (inSubscript : Bool) :
    ∃ text, renderNode table vars levels inSubscript e = .ok text := by
  induction h generalizing levels inSubscript with
  | int h => exact ⟨_, by rw [renderNode, renderInt_of_lt h]⟩
  | finite negative mantissa exponent => exact ⟨_, by rw [renderNode]; rfl⟩
  | infinity h =>
      obtain ⟨text, htext⟩ := Option.isSome_iff_exists.mp h
      exact ⟨text.toList, by rw [renderNode, renderFloat, htext]⟩
  | symbol name => exact ⟨_, by rw [renderNode]⟩
  | list hm hplain hargs hneeds ih =>
      obtain ⟨rest, rfl, hrest⟩ := exists_levels hlevels
      obtain ⟨texts, htexts, hlength⟩ :=
        exists_renderArgs_eq_ok (fun arg harg => ih arg harg (hrest arg harg)) 0
      obtain ⟨text, htext⟩ :=
        exists_applyMapping_eq_ok hplain inSubscript (hlength.symm ▸ hneeds)
      exact ⟨text, by rw [renderNode_list hm, htexts]; exact htext⟩

/-- A value that is no expression is refused at any level. -/
theorem renderNode_of_not_IsNode {e : Json} (h : ¬ e.IsNode table) (levels : Nat)
    (inSubscript : Bool) :
    renderNode table vars levels inSubscript e = .error (refuse e) := by
  match e with
  | .null => rw [renderNode] <;> simp
  | .bool b => rw [renderNode] <;> simp
  | .int n => exact absurd trivial h
  | .float (.finite _ _ _) => exact absurd trivial h
  | .float (.infinity negative) =>
      have hnone : table.constant? (infinityName negative) = none :=
        Option.not_isSome_iff_eq_none.mp h
      rw [renderNode, renderFloat, hnone]
      rfl
  | .float .nan => rw [renderNode]; rfl
  | .string name => exact absurd trivial h
  | .array [] => rw [renderNode] <;> simp
  | .array (.string _ :: _) => exact absurd trivial h
  | .array (.null :: _) | .array (.bool _ :: _) | .array (.int _ :: _)
      | .array (.float _ :: _)
  | .array (.array _ :: _) | .array (.object _ :: _) => rw [renderNode] <;> simp
  | .object fields => rw [renderNode] <;> simp

/-- The first fault of an expression is the one that is reported. -/
theorem renderNode_eq_error {e : Json} {err : FormulaError}
    (h : FirstFault table e err) {levels : Nat} (hlevels : e.height ≤ levels + 1)
    (inSubscript : Bool) :
    renderNode table vars levels inSubscript e = .error err := by
  induction h generalizing levels inSubscript with
  | shape h hshown => rw [renderNode_of_not_IsNode h, refuse, if_pos hshown]
  | unshown h hshown =>
      rw [renderNode_of_not_IsNode h, refuse, if_neg (by simp [hshown])]
  | digits h => rw [renderNode, renderInt_of_le h]
  | head h => rw [renderNode, h]
  | @argument head m before after arg err hm hbefore harg ih =>
      obtain ⟨rest, rfl, hrest⟩ := exists_levels hlevels
      have hargs : renderArgs table vars rest m 0 (before ++ arg :: after) =
          .error err :=
        renderArgs_eq_error
          (fun a ha => exists_renderNode_eq_ok (hbefore a ha)
            (hrest a (List.mem_append_left _ ha)))
          (ih (hrest arg (by simp))) 0
      rw [renderNode_list hm, hargs]
      rfl
  | count hm hplain hargs hn hmissing =>
      obtain ⟨rest, rfl, hrest⟩ := exists_levels hlevels
      obtain ⟨texts, htexts, hlength⟩ :=
        exists_renderArgs_eq_ok
          (fun arg harg => exists_renderNode_eq_ok (hargs arg harg) (hrest arg harg)) 0
      rw [renderNode_list hm, htexts]
      rw [← hlength] at hmissing ⊢
      exact applyMapping_eq_error hplain inSubscript hn hmissing

end Formula

/-! ### The domain -/

section Domain

variable {table : FormulaTable}

mutual

/-- An expression that is not renderable has a first fault. -/
theorem Renderable.or_fault (hplain : table.Plain) : (e : Json) →
    Renderable table e ∨ ∃ err, FirstFault table e err
  | .null => .inr (exists_fault_of_not_isNode id)
  | .bool _ => .inr (exists_fault_of_not_isNode id)
  | .int n =>
      if h : n.natAbs < Json.firstLong then .inl (.int h)
      else .inr ⟨_, .digits (Nat.not_lt.mp h)⟩
  | .float (.finite negative mantissa exponent) =>
      .inl (.finite negative mantissa exponent)
  | .float (.infinity negative) =>
      if h : (table.constant? (Formula.infinityName negative)).isSome
        then .inl (.infinity h)
      else .inr (exists_fault_of_not_isNode h)
  | .float .nan => .inr (exists_fault_of_not_isNode id)
  | .string name => .inl (.symbol name)
  | .array [] => .inr (exists_fault_of_not_isNode id)
  | .array (.string head :: args) => by
      rcases hm : table.mapping? head with _ | m
      · exact .inr ⟨_, .head hm⟩
      obtain hargs | ⟨before, arg, after, err, rfl, hbefore, harg⟩ :=
        forall_or_fault hplain args
      · obtain ⟨needs, hneeds⟩ := hplain head m hm
        by_cases hcount : ∀ n ∈ needs, n < args.length
        · exact .inl (.list hm hneeds hargs hcount)
        · simp only [not_forall, not_lt] at hcount
          obtain ⟨n, hn, hmissing⟩ := hcount
          exact .inr ⟨_, .count hm hneeds hargs hn hmissing⟩
      · exact .inr ⟨err, .argument hm hbefore harg⟩
  | .array (.null :: _) | .array (.bool _ :: _) | .array (.int _ :: _)
      | .array (.float _ :: _)
  | .array (.array _ :: _) | .array (.object _ :: _) =>
      .inr (exists_fault_of_not_isNode id)
  | .object _ => .inr (exists_fault_of_not_isNode id)

/-- Arguments are all renderable, or the first that is not has a first fault. -/
theorem Renderable.forall_or_fault (hplain : table.Plain) : (args : List Json) →
    (∀ arg ∈ args, Renderable table arg) ∨
      ∃ before arg after err, args = before ++ arg :: after ∧
        (∀ arg ∈ before, Renderable table arg) ∧ FirstFault table arg err
  | [] => .inl (by simp)
  | arg :: args => by
      obtain harg | ⟨err, herr⟩ := Renderable.or_fault hplain arg
      · obtain hargs | ⟨before, bad, after, err, rfl, hbefore, herr⟩ :=
          Renderable.forall_or_fault hplain args
        · exact .inl (List.forall_mem_cons.mpr ⟨harg, hargs⟩)
        · exact .inr ⟨arg :: before, bad, after, err, rfl,
            List.forall_mem_cons.mpr ⟨harg, hbefore⟩, herr⟩
      · exact .inr ⟨[], arg, args, err, rfl, by simp, herr⟩

end

/-- A renderable expression has a formula, which starts with an equals sign. -/
theorem exists_formula_eq_ok {e : Json} (h : Renderable table e)
    (hheight : e.height ≤ expressionLimit + 1) (vars : VariableMap) :
    ∃ text, formula table vars e = .ok (String.ofList ('=' :: text)) := by
  obtain ⟨text, htext⟩ :
      ∃ text, Formula.renderNode table vars expressionLimit false e = .ok text :=
    Formula.exists_renderNode_eq_ok h hheight false
  exact ⟨text, by rw [formula, htext]; rfl⟩

/-- An expression with a fault fails with the first one. -/
theorem formula_eq_error {e : Json} {err : FormulaError} (h : FirstFault table e err)
    (hheight : e.height ≤ expressionLimit + 1) (vars : VariableMap) :
    formula table vars e = .error err := by
  rw [formula, Formula.renderNode_eq_error h hheight]
  rfl

/-- Only renderable expressions have a formula, since all others have a fault. -/
theorem exists_formula_eq_ok_iff (hplain : table.Plain) {e : Json}
    (hheight : e.height ≤ expressionLimit + 1) (vars : VariableMap) :
    (∃ text, formula table vars e = .ok (String.ofList ('=' :: text))) ↔
      Renderable table e := by
  refine ⟨fun ⟨text, htext⟩ => ?_, fun h => exists_formula_eq_ok h hheight vars⟩
  obtain hok | ⟨err, herr⟩ := Renderable.or_fault hplain e
  · exact hok
  · cases htext.symm.trans (formula_eq_error herr hheight vars)

/-- The failure of an expression is its first fault and no other. -/
theorem formula_eq_error_iff (hplain : table.Plain) {e : Json} {err : FormulaError}
    (hheight : e.height ≤ expressionLimit + 1) (vars : VariableMap) :
    formula table vars e = .error err ↔ FirstFault table e err := by
  refine ⟨fun herror => ?_, fun h => formula_eq_error h hheight vars⟩
  obtain hok | ⟨first, hfirst⟩ := Renderable.or_fault hplain e
  · obtain ⟨text, htext⟩ := exists_formula_eq_ok hok hheight vars
    cases herror.symm.trans htext
  · cases herror.symm.trans (formula_eq_error hfirst hheight vars)
    exact hfirst

/-- An expression fails exactly if it is not renderable. -/
theorem exists_formula_eq_error_iff (hplain : table.Plain) {e : Json}
    (hheight : e.height ≤ expressionLimit + 1) (vars : VariableMap) :
    (∃ err, formula table vars e = .error err) ↔ ¬ Renderable table e := by
  constructor
  · rintro ⟨err, herror⟩ hok
    obtain ⟨text, htext⟩ := exists_formula_eq_ok hok hheight vars
    cases herror.symm.trans htext
  · intro hnot
    obtain ⟨err, herr⟩ := (Renderable.or_fault hplain e).resolve_left hnot
    exact ⟨err, formula_eq_error herr hheight vars⟩

/-- The faults of expressions, and next to them that of an integer which cannot be
written. -/
theorem FirstFault.kinds {e : Json} {err : FormulaError} (h : FirstFault table e err) :
    (∃ description, err = .unknownNode description) ∨
      (∃ head, err = .unsupported head) ∨
      (∃ tag count, err = .tooFewArguments tag count) ∨ err = .tooManyDigits := by
  induction h with
  | shape _ _ => exact .inl ⟨_, rfl⟩
  | unshown _ _ => exact .inr (.inr (.inr rfl))
  | digits _ => exact .inr (.inr (.inr rfl))
  | head _ => exact .inr (.inl ⟨_, rfl⟩)
  | argument _ _ _ ih => exact ih
  | count _ _ _ _ _ => exact .inr (.inr (.inl ⟨_, _, rfl⟩))

theorem itemsDescribable_iff {items : List Json} :
    Json.itemsDescribable items = true ↔ ∀ item ∈ items, item.isDescribable = true := by
  induction items with
  | nil => simp [Json.itemsDescribable]
  | cons item rest ih => simp [Json.itemsDescribable, ih]

/-- Where all integers can be written, no fault is about one. -/
theorem FirstFault.ne_tooManyDigits {e : Json} {err : FormulaError}
    (h : FirstFault table e err) (hshort : e.isDescribable = true) :
    err ≠ .tooManyDigits := by
  induction h with
  | shape _ _ | head _ | count _ _ _ _ _ =>
      intro heq
      cases heq
  | unshown _ hshown =>
      rw [hshort] at hshown
      cases hshown
  | digits hlong => exact absurd (Json.isShort_iff.mp hshort) (Nat.not_lt.mpr hlong)
  | argument _ _ _ ih => exact ih (itemsDescribable_iff.mp hshort _ (by simp))

end Domain

/-- **The expressions that have a formula.**  In a plain table, such as the standard
one (`FormulaTable.standard_plain`), an expression that is not nested too deeply has
a formula if it is renderable; any other one fails with its first fault.  This is a
value that is no expression, a head without a mapping, a missing argument, or an
integer that has too many digits to be written, and only one of the first three if
there is no such integer. -/
theorem formula_domain (table : FormulaTable) (vars : VariableMap) (e : Json)
    (hplain : table.Plain) (hheight : e.height ≤ expressionLimit + 1) :
    ((∃ text, formula table vars e = .ok (String.ofList ('=' :: text))) ↔
        Renderable table e) ∧
      ((∃ err, formula table vars e = .error err) ↔ ¬ Renderable table e) ∧
      ∀ err, (formula table vars e = .error err ↔ FirstFault table e err) ∧
        (formula table vars e = .error err →
          ((∃ description, err = .unknownNode description) ∨
            (∃ head, err = .unsupported head) ∨
            (∃ tag count, err = .tooFewArguments tag count) ∨ err = .tooManyDigits) ∧
          (e.isDescribable = true → err ≠ .tooManyDigits)) := by
  refine ⟨exists_formula_eq_ok_iff hplain hheight vars,
    exists_formula_eq_error_iff hplain hheight vars, fun err => ?_⟩
  have hiff : formula table vars e = .error err ↔ FirstFault table e err :=
    formula_eq_error_iff hplain hheight vars
  exact ⟨hiff, fun herror =>
    ⟨(hiff.mp herror).kinds, (hiff.mp herror).ne_tooManyDigits⟩⟩

/-- In a sum, a root without a degree is met before the null value that stands behind
it. -/
theorem formula_domain_root :
    FormulaTable.standard.Plain ∧
      (Json.array [.string "Add", .int 2,
        .array [.string "Root", .string "x"], .null]).height ≤
        expressionLimit + 1 ∧
      FirstFault .standard
        (.array [.string "Add", .int 2, .array [.string "Root", .string "x"], .null])
        (.tooFewArguments "Root" 1) := by
  refine ⟨FormulaTable.standard_plain, by decide, ?_⟩
  obtain ⟨-, -, hfirst⟩ := formula_domain .standard []
    (.array [.string "Add", .int 2, .array [.string "Root", .string "x"], .null])
    FormulaTable.standard_plain (by decide)
  exact (hfirst _).1.mp rfl

/-- **An integer with too many digits has no formula**, though it is a finite number;
it is not refused as a value that is no expression either, and the question whether
there is a formula fails with it. -/
theorem long_integers_unwritten :
    formula .standard [] (.int Json.firstLong) = .error .tooManyDigits ∧
      formula .standard [] (.array [.int Json.firstLong]) = .error .tooManyDigits ∧
      canRender .standard [] (.int Json.firstLong) = .error .tooManyDigits := by
  have hlong : Json.firstLong ≤ (Json.firstLong : Int).natAbs := by
    rw [Int.natAbs_natCast]
  have hnumber : formula .standard [] (.int Json.firstLong) = .error .tooManyDigits :=
    formula_eq_error (.digits hlong) (by decide) []
  have hshown : (Json.array [.int Json.firstLong]).isDescribable = false := by
    have hshort : Json.isShort Json.firstLong = false :=
      Bool.eq_false_iff.mpr fun h => Nat.not_lt.mpr hlong (Json.isShort_iff.mp h)
    simp only [Json.isDescribable, Json.itemsDescribable, hshort, Bool.false_and]
  refine ⟨hnumber, formula_eq_error (.unshown id hshown) (by decide) [], ?_⟩
  rw [canRender, hnumber]
  rfl

end Formulary
