import Formulary.Formula.Render

/-!
# Writing lists

What is shared by the statements about formulas: when the arguments of a list are
written, when the list is, and how a text that was written, or a failure, came about.

* `Json.expression_induction` is the induction over expressions that these statements
  go by.
* `Json.symbols` lists the symbols of an expression, and `Json.parts` all the
  expressions in it.
-/

namespace Formulary

/-- A step that succeeds goes on from the result of the step before it. -/
theorem exists_of_bind_eq_ok {ε α β : Type} {x : Except ε α}
    {f : α → Except ε β} {b : β} (h : x >>= f = .ok b) :
    ∃ a, x = .ok a ∧ f a = .ok b := by
  cases x with
  | error err => cases h
  | ok a => exact ⟨a, rfl, h⟩

theorem exists_of_map_eq_ok {ε α β : Type} {x : Except ε α} {f : α → β} {b : β}
    (h : x.map f = .ok b) : ∃ a, x = .ok a ∧ f a = b := by
  cases x with
  | error err => cases h
  | ok a => exact ⟨a, rfl, Except.ok.inj h⟩

theorem Json.height_le_itemsHeight {item : Json} {items : List Json}
    (h : item ∈ items) :
    item.height ≤ itemsHeight items := by
  induction items with
  | nil => cases h
  | cons first rest ih =>
      rw [itemsHeight]
      rcases List.mem_cons.mp h with rfl | h
      · exact Nat.le_max_left ..
      · exact Nat.le_trans (ih h) (Nat.le_max_right ..)

/-! ### Expressions -/

namespace Json

/-- **Induction over expressions**: a list with a head is taken apart into its
arguments, and nothing else is. -/
theorem expression_induction {P : Json → Prop}
    (list : ∀ head args, (∀ arg ∈ args, P arg) → P (.array (.string head :: args)))
    (leaf : ∀ e : Json, (∀ head args, e ≠ .array (.string head :: args)) → P e)
    (e : Json) : P e := by
  induction hheight : e.height using Nat.strongRecOn generalizing e with
  | ind n ih =>
      by_cases h : ∃ head args, e = .array (.string head :: args)
      · obtain ⟨head, args, rfl⟩ := h
        apply list
        intro arg harg
        have hle : arg.height ≤ itemsHeight args := height_le_itemsHeight harg
        have hlt : itemsHeight args < n := by
          rw [← hheight, height, itemsHeight]
          omega
        exact ih arg.height (by omega) arg rfl
      · apply leaf
        intro head args heq
        exact h ⟨head, args, heq⟩

mutual

/-- The symbols of an expression: the strings that are the expression itself or an
argument at any depth, and never a head. -/
def symbols : Json → List String
  | .string name => [name]
  | .array (.string _ :: args) => itemsSymbols args
  | .array items => itemsSymbols items
  | _ => []

/-- The symbols of some items. -/
def itemsSymbols : List Json → List String
  | [] => []
  | item :: rest => item.symbols ++ itemsSymbols rest

end

theorem mem_itemsSymbols {name : String} {items : List Json} :
    name ∈ itemsSymbols items ↔ ∃ item ∈ items, name ∈ item.symbols := by
  induction items with
  | nil => simp [itemsSymbols]
  | cons item rest ih => simp [itemsSymbols, ih]

mutual

/-- The expressions in an expression: itself and, if it is a list with a head, those
in its arguments. -/
def parts : Json → List Json
  | .array (.string head :: args) => .array (.string head :: args) :: itemsParts args
  | e => [e]

/-- The expressions in some items. -/
def itemsParts : List Json → List Json
  | [] => []
  | item :: rest => item.parts ++ itemsParts rest

end

/-- The parts of a list's items are those of each item. -/
theorem mem_itemsParts {part : Json} {items : List Json} :
    part ∈ itemsParts items ↔ ∃ item ∈ items, part ∈ item.parts := by
  induction items with
  | nil => simp [itemsParts]
  | cons item rest ih => simp [itemsParts, ih]

/-- The parts of a list with a head are the list and the parts of its arguments. -/
theorem mem_parts_list {part : Json} {head : String} {args : List Json} :
    part ∈ (array (.string head :: args)).parts ↔
      part = .array (.string head :: args) ∨ ∃ arg ∈ args, part ∈ arg.parts := by
  rw [parts, List.mem_cons, mem_itemsParts]

/-- What is no list with a head has no other parts than itself. -/
theorem parts_leaf {e : Json} (h : ∀ head args, e ≠ .array (.string head :: args)) :
    e.parts = [e] := by
  rw [parts]
  exact h

theorem mem_parts_self (e : Json) : e ∈ e.parts := by
  by_cases h : ∃ head args, e = .array (.string head :: args)
  · obtain ⟨head, args, rfl⟩ := h
    exact mem_parts_list.mpr (.inl rfl)
  · rw [parts_leaf fun head args heq => h ⟨head, args, heq⟩]
    exact List.mem_singleton_self e

end Json

namespace Formula

/-! ### Integers -/

/-- An integer below the limit is written in full. -/
theorem renderInt_of_lt {n : Int} (h : n.natAbs < Json.firstLong) :
    renderInt n = .ok (toString n).toList :=
  if_pos (Json.isShort_iff.mpr h)

/-- An integer from the limit on is not written. -/
theorem renderInt_of_le {n : Int} (h : Json.firstLong ≤ n.natAbs) :
    renderInt n = .error .tooManyDigits :=
  if_neg fun hshort => Nat.not_lt.mpr h (Json.isShort_iff.mp hshort)

theorem eq_of_renderInt {n : Int} {text : List Char} (h : renderInt n = .ok text) :
    text = (toString n).toList := by
  rcases Nat.lt_or_ge n.natAbs Json.firstLong with hlt | hle
  · rw [renderInt_of_lt hlt] at h
    exact (Except.ok.inj h).symm
  · rw [renderInt_of_le hle] at h
    cases h

/-! ### Lists -/

variable {table : FormulaTable} {vars : VariableMap}

/-! ### Arguments -/

/-- If every argument is written, so are all of them, one text for each. -/
theorem exists_renderArgs_eq_ok {levels : Nat} {m : Mapping} {args : List Json}
    (h : ∀ arg ∈ args, ∀ inSubscript, ∃ text,
      renderNode table vars levels inSubscript arg = .ok text)
    (number : Nat) :
    ∃ texts, renderArgs table vars levels m number args = .ok texts ∧
      texts.length = args.length := by
  induction args generalizing number with
  | nil => exact ⟨[], rfl, rfl⟩
  | cons arg args ih =>
      obtain ⟨harg, hargs⟩ := List.forall_mem_cons.mp h
      obtain ⟨text, htext⟩ := harg (m.isIndex number)
      obtain ⟨texts, htexts, hlength⟩ := ih hargs (number + 1)
      refine ⟨text :: texts, ?_, congrArg (· + 1) hlength⟩
      rw [renderArgs, htext, htexts]
      rfl

/-- The first argument that fails decides, and those behind it are not looked at. -/
theorem renderArgs_eq_error {levels : Nat} {m : Mapping}
    {before after : List Json} {arg : Json} {err : FormulaError}
    (hbefore : ∀ arg ∈ before, ∀ inSubscript,
      ∃ text, renderNode table vars levels inSubscript arg = .ok text)
    (harg : ∀ inSubscript, renderNode table vars levels inSubscript arg = .error err)
    (number : Nat) :
    renderArgs table vars levels m number (before ++ arg :: after) = .error err := by
  induction before generalizing number with
  | nil =>
      rw [List.nil_append, renderArgs, harg]
      rfl
  | cons first before ih =>
      obtain ⟨hfirst, hbefore⟩ := List.forall_mem_cons.mp hbefore
      obtain ⟨text, htext⟩ := hfirst (m.isIndex number)
      rw [List.cons_append, renderArgs, htext, ih hbefore]
      rfl

/-! ### Lists -/

/-- The value of a list with a mapped head, given what becomes of its arguments. -/
theorem renderNode_list {head : String} {args : List Json} {m : Mapping} {levels : Nat}
    {inSubscript : Bool} (hm : table.mapping? head = some m) :
    renderNode table vars (levels + 1) inSubscript (.array (.string head :: args)) =
      renderArgs table vars levels m 0 args >>= applyMapping m inSubscript := by
  simp only [renderNode, hm]

/-- Entering a list leaves enough levels for its arguments. -/
theorem exists_levels {head : String} {args : List Json} {levels : Nat}
    (h : (Json.array (.string head :: args)).height ≤ levels + 1) :
    ∃ rest, levels = rest + 1 ∧ ∀ arg ∈ args, arg.height ≤ rest + 1 := by
  rw [Json.height, Json.itemsHeight, Json.height] at h
  · refine ⟨levels - 1, by omega, fun arg harg => ?_⟩
    have hle : arg.height ≤ Json.itemsHeight args := Json.height_le_itemsHeight harg
    omega
  all_goals simp

/-- How a list comes to be written. -/
theorem exists_mapping_of_renderNode_list {head : String}
    {args : List Json} {levels : Nat} {inSubscript : Bool} {text : List Char}
    (h : renderNode table vars levels inSubscript (.array (.string head :: args)) =
      .ok text) :
    ∃ m rest texts, table.mapping? head = some m ∧ levels = rest + 1 ∧
      renderArgs table vars rest m 0 args = .ok texts ∧
        applyMapping m inSubscript texts = .ok text := by
  cases hm : table.mapping? head with
  | none =>
      rw [renderNode, hm] at h
      cases h
  | some m =>
      cases levels with
      | zero =>
          rw [renderNode, hm] at h
          cases h
      | succ rest =>
          rw [renderNode_list hm] at h
          obtain ⟨texts, htexts, happly⟩ := exists_of_bind_eq_ok h
          exact ⟨m, rest, texts, rfl, rfl, htexts, happly⟩

/-- How a list with a mapped head comes to be written. -/
theorem exists_of_renderNode_list {head : String} {args : List Json}
    {m : Mapping} {levels : Nat} {inSubscript : Bool} {text : List Char}
    (hm : table.mapping? head = some m)
    (h : renderNode table vars levels inSubscript (.array (.string head :: args)) =
      .ok text) :
    ∃ rest texts, renderArgs table vars rest m 0 args = .ok texts ∧
      applyMapping m inSubscript texts = .ok text := by
  obtain ⟨found, rest, texts, hfound, -, htexts, happly⟩ :=
    exists_mapping_of_renderNode_list h
  obtain rfl : m = found := Option.some.inj (hm.symm.trans hfound)
  exact ⟨rest, texts, htexts, happly⟩

/-- If arguments are written, the first one is, and so are the others. -/
theorem exists_of_renderArgs_cons {arg : Json} {args : List Json} {m : Mapping}
    {levels number : Nat} {texts : List (List Char)}
    (h : renderArgs table vars levels m number (arg :: args) = .ok texts) :
    ∃ text rest, renderNode table vars levels (m.isIndex number) arg = .ok text ∧
      renderArgs table vars levels m (number + 1) args = .ok rest ∧
        texts = text :: rest := by
  rw [renderArgs] at h
  obtain ⟨text, htext, h⟩ := exists_of_bind_eq_ok h
  obtain ⟨rest, hrest, h⟩ := exists_of_bind_eq_ok h
  cases h
  exact ⟨text, rest, htext, hrest, rfl⟩

/-- Writing the arguments of a list depends on how each of them is written. -/
theorem renderArgs_congr {table' : FormulaTable} {vars' : VariableMap}
    {levels : Nat} {m : Mapping} {args : List Json}
    (h : ∀ arg ∈ args, ∀ inSubscript, renderNode table vars levels inSubscript arg =
      renderNode table' vars' levels inSubscript arg) (number : Nat) :
    renderArgs table vars levels m number args =
      renderArgs table' vars' levels m number args := by
  induction args generalizing number with
  | nil => rfl
  | cons arg args ih =>
      obtain ⟨harg, hargs⟩ := List.forall_mem_cons.mp h
      rw [renderArgs, renderArgs, harg, ih hargs]

/-- If the arguments of a list are written, then so are others in their places that
have the same texts. -/
theorem renderArgs_map {args : List Json} {m : Mapping}
    {levels levels' number : Nat} (f : Json → Json)
    (hf : ∀ arg ∈ args, ∀ inSubscript text,
      renderNode table vars levels inSubscript arg = .ok text →
      renderNode table vars levels' inSubscript (f arg) = .ok text)
    {texts : List (List Char)}
    (h : renderArgs table vars levels m number args = .ok texts) :
    renderArgs table vars levels' m number (args.map f) = .ok texts := by
  induction args generalizing number texts with
  | nil => exact h
  | cons arg args ih =>
      obtain ⟨harg, hargs⟩ := List.forall_mem_cons.mp hf
      obtain ⟨text, rest, htext, hrest, rfl⟩ := exists_of_renderArgs_cons h
      rw [List.map_cons, renderArgs, harg _ text htext, ih hargs hrest]
      rfl

/-- The first of some arguments are written as the first of their texts. -/
theorem renderArgs_take {args : List Json} {m : Mapping} {levels number : Nat}
    {texts : List (List Char)}
    (h : renderArgs table vars levels m number args = .ok texts) (count : Nat) :
    renderArgs table vars levels m number (args.take count) =
      .ok (texts.take count) := by
  induction args generalizing number texts count with
  | nil =>
      cases h
      rw [List.take_nil, List.take_nil]
      rfl
  | cons arg args ih =>
      obtain ⟨text, rest, htext, hrest, rfl⟩ := exists_of_renderArgs_cons h
      cases count with
      | zero => rfl
      | succ count =>
          rw [List.take_succ_cons, List.take_succ_cons, renderArgs,
            htext, ih hrest count]
          rfl

/-- If the arguments of a list are written, then each of them is, in its own
place. -/
theorem exists_getElem?_of_renderArgs {args : List Json} {m : Mapping}
    {levels number : Nat} {texts : List (List Char)}
    (h : renderArgs table vars levels m number args = .ok texts) {i : Nat} {arg : Json}
    (harg : args[i]? = some arg) :
    ∃ text, texts[i]? = some text ∧
      renderNode table vars levels (m.isIndex (number + i)) arg = .ok text := by
  induction args generalizing number texts i with
  | nil => cases harg
  | cons first args ih =>
      obtain ⟨text, rest, htext, hrest, rfl⟩ := exists_of_renderArgs_cons h
      cases i with
      | zero =>
          obtain rfl : first = arg := by simpa using harg
          exact ⟨text, rfl, htext⟩
      | succ i =>
          obtain ⟨found, hfound, hwritten⟩ := ih hrest (by simpa using harg)
          exact ⟨found, by simpa using hfound, by
            rwa [Nat.add_right_comm, Nat.add_assoc] at hwritten⟩

/-- A written argument is the text of one of the arguments. -/
theorem exists_of_mem_renderArgs {args : List Json} {m : Mapping} {levels number : Nat}
    {texts : List (List Char)}
    (h : renderArgs table vars levels m number args = .ok texts) {text : List Char}
    (htext : text ∈ texts) :
    ∃ arg ∈ args, ∃ inSubscript, renderNode table vars levels inSubscript arg =
      .ok text := by
  induction args generalizing number texts with
  | nil =>
      cases h
      cases htext
  | cons arg args ih =>
      obtain ⟨first, rest, hfirst, hrest, rfl⟩ := exists_of_renderArgs_cons h
      rcases List.mem_cons.mp htext with rfl | htext
      · exact ⟨arg, List.mem_cons_self .., _, hfirst⟩
      · obtain ⟨found, hfound, written⟩ := ih hrest htext
        exact ⟨found, List.mem_cons_of_mem arg hfound, written⟩

end Formula

/-- A formula is an equals sign in front of what is written for the expression. -/
theorem exists_of_formula {table : FormulaTable} {vars : VariableMap}
    {e : Json} {text : String} (h : formula table vars e = .ok text) :
    ∃ x, Formula.renderNode table vars expressionLimit false e = .ok x ∧
      text = String.ofList ('=' :: x) := by
  rw [formula] at h
  obtain ⟨x, hx, h⟩ := exists_of_bind_eq_ok h
  cases h
  exact ⟨x, hx, rfl⟩

end Formulary
