import Formulary.Proofs.FormulaDomain

/-!
# Arguments that a formula shows

Operators and functions that are called by name have a place for every argument.  A
template has only those that its fields name, and what a list has beyond them is
*surplus*: it must be an expression that can be written, but its text goes nowhere.
Nothing else is left out: the surplus leaves no trace, and all the rest is shown.

* `Mapping.placed` are the arguments of a list that its mapping has places for.
* `Json.trimmed` is an expression without its surplus arguments, and `Json.Fits` says
  that there are none.
-/

namespace Formulary

open Formulary.Template

/-! ### Places -/

/-- The number of arguments that the parts of a template have places for. -/
def Template.placeCount : List Part → Nat
  | [] => 0
  | .literal _ :: ps => placeCount ps
  | .argument n :: ps => max (n + 1) (placeCount ps)

/-- The number of arguments that a way of writing has places for, if it is
limited. -/
def Renderer.placeCount? : Renderer → Option Nat
  | .template text => (partsFrom? none text.toList).map placeCount
  | _ => none

/-- The arguments of a list that its mapping has places for. -/
def Mapping.placed {α : Type} (m : Mapping) (args : List α) : List α :=
  match m.renderer.placeCount? with
  | some count => args.take count
  | none => args

/-- Arguments that have a place keep it when the others are gone. -/
theorem Mapping.placed_placed {α : Type} (m : Mapping) (args : List α) :
    m.placed (m.placed args) = m.placed args := by
  unfold placed
  cases m.renderer.placeCount? with
  | none => rfl
  | some count => exact List.take_take.trans (by rw [Nat.min_self])

/-- The arguments that have a place are among all of them. -/
theorem Mapping.mem_of_mem_placed {α : Type} {m : Mapping} {args : List α} {a : α}
    (h : a ∈ m.placed args) : a ∈ args := by
  unfold placed at h
  split at h
  · exact List.mem_of_mem_take h
  · exact h

/-- A way of writing in which every place is in use. -/
def Renderer.Gapless : Renderer → Prop
  | .join _ | .call _ => True
  | .template text =>
    ∃ ps, partsFrom? none text.toList = some ps ∧
      ∀ n < placeCount ps, n ∈ partNumbers ps
  | .custom _ => False

/-- A table of ways of writing in which every place is in use. -/
def FormulaTable.Gapless (t : FormulaTable) : Prop :=
  ∀ head m, t.mapping? head = some m → m.renderer.Gapless

/-- The standard table has no template with an unused place. -/
theorem FormulaTable.standard_gapless : FormulaTable.standard.Gapless := by
  intro head m hm
  obtain hmem | ⟨c, -, rfl⟩ | ⟨t, ht, rfl⟩ := standard_mapping?_cases hm
  · have hjoin : ∀ m ∈ standardOperators, m.renderer.Gapless := by
      simp [standardOperators, Mapping.operator, Renderer.Gapless]
    exact hjoin m hmem
  · exact trivial
  · have hparts : ∀ t ∈ standardTemplates, ∃ ps ∈ partsFrom? none t.2.1.toList,
        ∀ n < placeCount ps, n ∈ partNumbers ps := by decide
    exact hparts t ht

/-! ### Filling in -/

namespace Template

/-- Arguments without a place do not matter. -/
theorem fillParts_take {args : List (List Char)} {ps : List Part} {count : Nat}
    (h : placeCount ps ≤ count) :
    fillParts (args.take count) ps = fillParts args ps := by
  induction ps with
  | nil => rfl
  | cons p ps ih =>
      cases p with
      | literal c => rw [fillParts, fillParts, ih h]
      | argument n =>
          obtain ⟨hn, hps⟩ := Nat.max_le.mp h
          rw [fillParts, fillParts, ih hps, List.getElem?_take_of_lt hn]

/-- An argument with a place is shown there. -/
theorem infix_of_fillParts {args : List (List Char)} {ps : List Part} {text : List Char}
    (h : fillParts args ps = .ok text) {n : Nat}
    (hn : n ∈ partNumbers ps) {arg : List Char}
    (harg : args[n]? = some arg) : arg <:+: text := by
  induction ps generalizing text with
  | nil => cases hn
  | cons p ps ih =>
      cases p with
      | literal c =>
          rw [fillParts] at h
          obtain ⟨rest, hrest, rfl⟩ := exists_of_map_eq_ok h
          exact (ih hrest hn).trans (List.suffix_cons c rest).isInfix
      | argument m =>
          rw [fillParts] at h
          cases hm : args[m]? with
          | none =>
              rw [hm] at h
              cases h
          | some first =>
              rw [hm] at h
              obtain ⟨rest, hrest, rfl⟩ := exists_of_map_eq_ok h
              obtain rfl | hn := List.mem_cons.mp hn
              · obtain rfl : first = arg := Option.some.inj (hm.symm.trans harg)
                exact (List.prefix_append first rest).isInfix
              · exact (ih hrest hn).trans (List.suffix_append first rest).isInfix

end Template

namespace Formula

/-- Each of the texts that are joined is in the result. -/
theorem infix_joined {separator text : List Char} {texts : List (List Char)}
    (h : text ∈ texts) :
    text <:+: joined separator texts := by
  induction texts with
  | nil => cases h
  | cons first rest ih =>
      cases rest with
      | nil =>
          obtain rfl := List.mem_singleton.mp h
          exact List.infix_rfl
      | cons second rest =>
          have hjoined : joined separator (first :: second :: rest) =
              first ++ separator ++ joined separator (second :: rest) := rfl
          rw [hjoined]
          obtain rfl | h := List.mem_cons.mp h
          · exact ⟨[], separator ++ joined separator (second :: rest), by simp⟩
          · exact (ih h).trans (List.suffix_append _ _).isInfix

variable {table : FormulaTable} {vars : VariableMap} {m : Mapping} {inSubscript : Bool}

/-- A head with a plain template is written by filling in the parts of the
template. -/
theorem applyMapping_template {template : String} {ps : List Part}
    (hm : m.renderer = .template template)
    (hps : partsFrom? none template.toList = some ps) {args : List (List Char)}
    {text : List Char} :
    applyMapping m inSubscript args = .ok text ↔ fillParts args ps = .ok text := by
  have hfill : fill template.toList args = fillParts args ps :=
    fill_of_plain (plain_of_partsFrom? hps) args
  rw [applyMapping, hm]
  simp only [hfill]
  cases fillParts args ps with
  | ok filled => simp
  | error err => cases err <;> simp

/-- A head is written the same without the surplus arguments. -/
theorem applyMapping_placed (hgapless : m.renderer.Gapless)
    {args : List (List Char)} {text : List Char}
    (h : applyMapping m inSubscript args = .ok text) :
    applyMapping m inSubscript (m.placed args) = .ok text := by
  unfold Mapping.placed
  cases hm : m.renderer with
  | join symbol => exact h
  | call name => exact h
  | template template =>
      rw [hm] at hgapless
      obtain ⟨ps, hps, -⟩ := hgapless
      rw [applyMapping_template hm hps] at h
      simp only [Renderer.placeCount?, hps, Option.map_some]
      rw [applyMapping_template hm hps, fillParts_take (Nat.le_refl _), h]
  | custom f => exact (hm ▸ hgapless : Renderer.Gapless (.custom f)).elim

/-- A head is written with every argument that has a place. -/
theorem infix_of_applyMapping (hgapless : m.renderer.Gapless) {args : List (List Char)}
    {text : List Char}
    (h : applyMapping m inSubscript args = .ok text) {arg : List Char}
    (harg : arg ∈ m.placed args) : arg <:+: text := by
  unfold Mapping.placed at harg
  cases hm : m.renderer with
  | join symbol =>
      rw [hm] at harg
      rw [applyMapping, hm] at h
      have hjoined : ∀ separator, arg <:+: joined separator args :=
        fun _ => infix_joined harg
      have hchain : arg <:+: '(' :: (joined symbol.toList args ++ [')']) :=
        (hjoined symbol.toList).trans ⟨['('], [')'], rfl⟩
      cases inSubscript with
      | false =>
          cases h
          exact hchain
      | true =>
          cases hseparator : m.entry.subscriptSymbol with
          | none =>
              rw [hseparator] at h
              cases h
              exact hchain
          | some separator =>
              rw [hseparator] at h
              cases h
              exact hjoined separator.toList
  | call name =>
      rw [hm] at harg
      rw [applyMapping, hm] at h
      cases h
      have hjoined : arg <:+: joined [','] args := infix_joined harg
      exact hjoined.trans ⟨name.toList ++ ['('], [')'], by simp⟩
  | template template =>
      rw [hm] at hgapless harg
      obtain ⟨ps, hps, hused⟩ := hgapless
      rw [applyMapping_template hm hps] at h
      simp only [Renderer.placeCount?, hps, Option.map_some] at harg
      -- The place of the argument has a number below the count, so some field names
      -- it.
      obtain ⟨n, hn⟩ := List.mem_iff_getElem?.mp harg
      rw [List.getElem?_take, Option.ite_none_right_eq_some] at hn
      obtain ⟨hlt, hn⟩ := hn
      exact infix_of_fillParts h (hused n hlt) hn
  | custom f => exact (hm ▸ hgapless : Renderer.Gapless (.custom f)).elim

end Formula

/-! ### Expressions without surplus -/

namespace Json

mutual

/-- The expression without its surplus arguments. -/
def trimmed (table : FormulaTable) : Json → Json
  | .array (.string head :: args) =>
    .array (.string head ::
      match table.mapping? head with
      | some m => m.placed (itemsTrimmed table args)
      | none => itemsTrimmed table args)
  | e => e

/-- The items without their surplus arguments. -/
def itemsTrimmed (table : FormulaTable) : List Json → List Json
  | [] => []
  | item :: rest => item.trimmed table :: itemsTrimmed table rest

end

/-- Every list in an expression has a place for each of its arguments. -/
def Fits (table : FormulaTable) (e : Json) : Prop :=
  ∀ head args m, .array (.string head :: args) ∈ e.parts →
    table.mapping? head = some m →
    m.placed args = args

variable {table : FormulaTable}

theorem itemsTrimmed_eq_map (items : List Json) :
    itemsTrimmed table items = items.map (trimmed table) := by
  induction items with
  | nil => rfl
  | cons item rest ih => rw [itemsTrimmed, ih, List.map_cons]

/-- A list is trimmed to the arguments that have a place, and each of them is
trimmed. -/
theorem trimmed_list {head : String} {m : Mapping} (hm : table.mapping? head = some m)
    (args : List Json) :
    (array (.string head :: args)).trimmed table =
      .array (.string head :: m.placed (args.map (trimmed table))) := by
  rw [trimmed, hm, itemsTrimmed_eq_map]

/-- What is no list with a head has nothing to trim. -/
theorem trimmed_leaf {e : Json} (h : ∀ head args, e ≠ .array (.string head :: args)) :
    e.trimmed table = e := by
  rw [trimmed]
  exact h

/-- Where all arguments have a place, they do so in each argument. -/
theorem Fits.argument {head : String} {args : List Json}
    (h : (array (.string head :: args)).Fits table) {arg : Json}
    (harg : arg ∈ args) : arg.Fits table :=
  fun other others m hlist =>
    h other others m (mem_parts_list.mpr (.inr ⟨arg, harg, hlist⟩))

/-- An expression without surplus is not trimmed. -/
theorem Fits.trimmed_eq {e : Json} (h : e.Fits table) : e.trimmed table = e := by
  induction e using expression_induction with
  | list head args ih =>
      have hargs : args.map (trimmed table) = args := by
        rw [List.map_congr_left fun arg harg =>
          ih arg harg (h.argument harg), List.map_id']
      cases hm : table.mapping? head with
      | none => rw [trimmed, hm, itemsTrimmed_eq_map, hargs]
      | some m => rw [trimmed_list hm, hargs, h head args m (mem_parts_self _) hm]
  | leaf e hleaf => exact trimmed_leaf hleaf

/-- A trimmed expression has no surplus. -/
theorem fits_trimmed (table : FormulaTable) (e : Json) :
    (e.trimmed table).Fits table := by
  induction e using expression_induction with
  | list head args ih =>
      have hitem : ∀ item ∈ args.map (trimmed table), item.Fits table := by
        intro item hitem
        obtain ⟨arg, harg, rfl⟩ := List.mem_map.mp hitem
        exact ih arg harg
      intro other others n hlist hn
      cases hm : table.mapping? head with
      | none =>
          rw [trimmed, hm, itemsTrimmed_eq_map] at hlist
          obtain heq | ⟨item, hmem, hpart⟩ := mem_parts_list.mp hlist
          · cases heq
            cases hm.symm.trans hn
          · exact hitem item hmem other others n hpart hn
      | some m =>
          rw [trimmed_list hm] at hlist
          obtain heq | ⟨item, hmem, hpart⟩ := mem_parts_list.mp hlist
          · cases heq
            obtain rfl : m = n := Option.some.inj (hm.symm.trans hn)
            exact m.placed_placed _
          · exact hitem item (Mapping.mem_of_mem_placed hmem) other others n hpart hn
  | leaf e hleaf =>
      rw [trimmed_leaf hleaf]
      intro head args m hlist
      rw [parts_leaf hleaf, List.mem_singleton] at hlist
      exact absurd hlist.symm (hleaf head args)

end Json

/-! ### Writing -/

namespace Formula

variable {table : FormulaTable} {vars : VariableMap}

/-- An expression that is written is written the same if it may enter more levels. -/
theorem renderNode_of_le {e : Json} {levels levels' : Nat} (hle : levels ≤ levels')
    {inSubscript : Bool} {text : List Char}
    (h : renderNode table vars levels inSubscript e = .ok text) :
    renderNode table vars levels' inSubscript e = .ok text := by
  induction e using Json.expression_induction generalizing levels levels'
    inSubscript text with
  | list head args ih =>
      obtain ⟨m, rest, texts, hm, rfl, htexts, happly⟩ :=
        exists_mapping_of_renderNode_list h
      obtain ⟨rest', rfl⟩ := Nat.exists_eq_add_of_le' (Nat.le_of_add_left_le hle)
      have hargs : renderArgs table vars rest' m 0 (args.map id) = .ok texts :=
        renderArgs_map id (fun arg harg place x hx => ih arg harg (by omega) hx) htexts
      rw [renderNode_list hm, ← List.map_id args, hargs]
      exact happly
  | leaf e hleaf =>
      obtain ⟨n, rfl⟩ | ⟨negative, mantissa, exponent, rfl⟩ |
          ⟨negative, constant, rfl, hconstant⟩ | ⟨name, rfl⟩ | hnot :=
        Json.leaf_cases table hleaf
      · rwa [renderNode] at h ⊢
      · rwa [renderNode] at h ⊢
      · rwa [renderNode] at h ⊢
      · rwa [renderNode] at h ⊢
      · rw [renderNode_of_not_IsNode hnot] at h
        cases h

/-- The arguments with a place are written as the texts with a place. -/
theorem renderArgs_placed {args : List Json} {m : Mapping} {levels number : Nat}
    {texts : List (List Char)}
    (h : renderArgs table vars levels m number args = .ok texts) :
    renderArgs table vars levels m number (m.placed args) = .ok (m.placed texts) := by
  unfold Mapping.placed
  cases m.renderer.placeCount? with
  | none => exact h
  | some count => exact renderArgs_take h count

/-- **Surplus arguments leave no trace.** -/
theorem renderNode_trimmed (hgapless : table.Gapless) {e : Json} {levels : Nat}
    {inSubscript : Bool} {text : List Char}
    (h : renderNode table vars levels inSubscript e = .ok text) :
    renderNode table vars levels inSubscript (e.trimmed table) = .ok text := by
  induction e using Json.expression_induction generalizing levels inSubscript text with
  | list head args ih =>
      obtain ⟨m, rest, texts, hm, rfl, htexts, happly⟩ :=
        exists_mapping_of_renderNode_list h
      have hargs : renderArgs table vars rest m 0 (args.map (Json.trimmed table)) =
          .ok texts :=
        renderArgs_map _ (fun arg harg place x hx => ih arg harg hx) htexts
      rw [Json.trimmed_list hm, renderNode_list hm, renderArgs_placed hargs]
      exact applyMapping_placed (hgapless head m hm) happly
  | leaf e hleaf => rwa [Json.trimmed_leaf hleaf]

/-- The texts of the arguments of all lists in an expression are part of a text. -/
def ShowsArguments (table : FormulaTable) (vars : VariableMap) (levels : Nat) (e : Json)
    (text : List Char) : Prop :=
  ∀ head args, .array (.string head :: args) ∈ e.parts →
    ∃ m, table.mapping? head = some m ∧ ∀ i arg, args[i]? = some arg →
      ∃ shown, renderNode table vars levels (m.isIndex i) arg =
        .ok shown ∧ shown <:+: text

/-- **Without surplus, every argument is shown**: the induction goes from a list to
its arguments, because what an argument shows is part of what the list shows. -/
theorem showsArguments_of_fits (hgapless : table.Gapless) {e : Json}
    (hfits : e.Fits table) {levels : Nat} {inSubscript : Bool} {text : List Char}
    (h : renderNode table vars levels inSubscript e = .ok text) :
    ShowsArguments table vars levels e text := by
  induction e using Json.expression_induction generalizing levels inSubscript text with
  | list head args ih =>
      obtain ⟨m, rest, texts, hm, rfl, htexts, happly⟩ :=
        exists_mapping_of_renderNode_list h
      have hplaced : m.placed args = args :=
        hfits head args m (Json.mem_parts_self _) hm
      -- As every argument has its place in the mapping, the texts that are filled in
      -- are all the texts.
      have hsame : m.placed texts = texts := by
        have hwritten := renderArgs_placed htexts
        rw [hplaced, htexts] at hwritten
        exact (Except.ok.inj hwritten).symm
      have hshown : ∀ x ∈ texts, x <:+: text := fun x hx =>
        infix_of_applyMapping (hgapless head m hm) happly (hsame.symm ▸ hx)
      intro other others hlist
      -- The list in question is this one, or it is part of an argument, which the
      -- text shows as a whole.
      obtain heq | ⟨arg, harg, hpart⟩ := Json.mem_parts_list.mp hlist
      · cases heq
        refine ⟨m, hm, fun i arg harg => ?_⟩
        obtain ⟨x, hx, hwritten⟩ := exists_getElem?_of_renderArgs htexts harg
        rw [Nat.zero_add] at hwritten
        exact ⟨x, renderNode_of_le (Nat.le_succ rest) hwritten,
          hshown x (List.mem_of_getElem? hx)⟩
      · obtain ⟨i, hi⟩ := List.mem_iff_getElem?.mp harg
        obtain ⟨x, hx, hwritten⟩ := exists_getElem?_of_renderArgs htexts hi
        obtain ⟨n, hn, hothers⟩ :=
          ih arg harg (hfits.argument harg) hwritten other others hpart
        refine ⟨n, hn, fun k inner hk => ?_⟩
        obtain ⟨y, hy, hwithin⟩ := hothers k inner hk
        exact ⟨y, renderNode_of_le (Nat.le_succ rest) hy,
          hwithin.trans (hshown x (List.mem_of_getElem? hx))⟩
  | leaf e hleaf =>
      intro head args hlist
      rw [Json.parts_leaf hleaf, List.mem_singleton] at hlist
      exact absurd hlist.symm (hleaf head args)

end Formula

/-- **A formula shows every argument that has a place in it.**  Without the surplus
arguments the formula is the same, and then it shows every argument of every list, at
any depth; an expression that has no surplus is not changed by leaving it out. -/
theorem arguments_shown (vars : VariableMap) (e : Json) (text : String)
    (h : formula .standard vars e = .ok text) :
    formula .standard vars (e.trimmed .standard) = .ok text ∧
      Formula.ShowsArguments .standard vars expressionLimit
        (e.trimmed .standard) text.toList ∧
      (e.Fits .standard → e.trimmed .standard = e) := by
  obtain ⟨x, hx, rfl⟩ := exists_of_formula h
  have htrimmed := Formula.renderNode_trimmed FormulaTable.standard_gapless hx
  refine ⟨?_, fun head args hlist => ?_, Json.Fits.trimmed_eq⟩
  · rw [formula, htrimmed]
    rfl
  · obtain ⟨m, hm, hargs⟩ :=
      Formula.showsArguments_of_fits FormulaTable.standard_gapless
        (Json.fits_trimmed .standard e) htrimmed head args hlist
    refine ⟨m, hm, fun i arg harg => ?_⟩
    obtain ⟨shown, hshown, hwithin⟩ := hargs i arg harg
    refine ⟨shown, hshown, hwithin.trans ?_⟩
    rw [String.toList_ofList]
    exact (List.suffix_cons '=' x).isInfix

/-- A root with an argument too many, and an index of two letters. -/
theorem arguments_shown_surplus :
    let root : List Json := [.string "Root", .string "x", .int 3]
    let index : Json :=
      .array [.string "Subscript", .string "a",
        .array [.string "InvisibleOperator", .string "i", .string "j"]]
    formula .standard []
      (.array [.string "Add", .array (root ++ [.string "y"]), index]) =
        .ok "=((x^(1/3))+a_ij)" ∧
      formula .standard [] (.array [.string "Add", .array root, index]) =
        .ok "=((x^(1/3))+a_ij)" ∧
      Formula.ShowsArguments .standard [] expressionLimit
        (.array [.string "Add", .array root, index])
        "=((x^(1/3))+a_ij)".toList := by
  intro root index
  have hformula : formula .standard []
      (.array [.string "Add", .array (root ++ [.string "y"]), index]) =
      .ok "=((x^(1/3))+a_ij)" := rfl
  obtain ⟨htrimmed, hshows, -⟩ := arguments_shown [] _ _ hformula
  exact ⟨hformula, htrimmed, hshows⟩

/-- A negation with two arguments is written without the second. -/
theorem surplus_argument_dropped :
    formula .standard [] (.array [.string "Negate", .string "x", .string "y"]) =
      .ok "=(-x)" ∧
      ¬ Formula.ShowsArguments .standard [] expressionLimit
        (.array [.string "Negate", .string "x", .string "y"]) "=(-x)".toList := by
  refine ⟨rfl, fun hshows => ?_⟩
  obtain ⟨m, -, hargs⟩ := hshows _ _ (Json.mem_parts_self _)
  obtain ⟨shown, hshown, hwithin⟩ := hargs 1 (.string "y") rfl
  obtain rfl : ['y'] = shown := by
    rw [Formula.renderNode] at hshown
    exact Except.ok.inj hshown
  exact absurd (hwithin.subset (List.mem_singleton_self 'y')) (by decide)

end Formulary
