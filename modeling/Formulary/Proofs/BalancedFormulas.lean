import Formulary.Proofs.FormulaDomain

/-!
# Formulas have balanced parentheses

Of the four ways of writing only chains and calls put parentheses around their
arguments; a chain inside of a subscript has none, and a template has those of its
own text.  All of them keep balance for one reason: a balanced text may be put
anywhere into another text without disturbing it (`Text.balanced_insert`).

* `Text.Balanced` is balance, and `Text.depthAfter?` counts it.
* `FormulaTable.Balanced` is what a table needs, and `balanced_formula` what follows
  from it.
-/

namespace Formulary

/-! ### Balanced texts -/

namespace Text

/-- A text in which every parenthesis that is closed was open, and all are closed. -/
structure Balanced (cs : List Char) : Prop where
  /-- No beginning of the text closes more parentheses than it opens. -/
  closed_le : ∀ p, p <+: cs → p.count ')' ≤ p.count '('
  /-- The whole text closes as many as it opens. -/
  total : cs.count '(' = cs.count ')'

/-- The number of parentheses that are open behind a text if `d` are open in front of
it, and nothing if one is closed that is not open. -/
def depthAfter? (d : Nat) : List Char → Option Nat
  | [] => some d
  | c :: cs =>
    if c = '(' then depthAfter? (d + 1) cs
    else if c = ')' then
      if d = 0 then none else depthAfter? (d - 1) cs
    else depthAfter? d cs

@[simp] theorem depthAfter?_nil (d : Nat) : depthAfter? d [] = some d := rfl

@[simp] theorem depthAfter?_open (d : Nat) (cs : List Char) :
    depthAfter? d ('(' :: cs) = depthAfter? (d + 1) cs := by
  rw [depthAfter?, if_pos rfl]

@[simp] theorem depthAfter?_close_zero (cs : List Char) :
    depthAfter? 0 (')' :: cs) = none := by
  rw [depthAfter?, if_neg (by decide), if_pos rfl, if_pos rfl]

@[simp] theorem depthAfter?_close_succ (d : Nat) (cs : List Char) :
    depthAfter? (d + 1) (')' :: cs) = depthAfter? d cs := by
  rw [depthAfter?, if_neg (by decide), if_pos rfl,
    if_neg (Nat.succ_ne_zero d), Nat.add_sub_cancel]

theorem depthAfter?_other {c : Char} (hopen : c ≠ '(') (hclose : c ≠ ')') (d : Nat)
    (cs : List Char) : depthAfter? d (c :: cs) = depthAfter? d cs := by
  rw [depthAfter?, if_neg hopen, if_neg hclose]

/-- What holds of all beginnings of a text, by its first character. -/
theorem forall_prefix_cons {P : List Char → Prop} {c : Char} {cs : List Char} :
    (∀ p, p <+: c :: cs → P p) ↔ P [] ∧ ∀ p, p <+: cs → P (c :: p) := by
  constructor
  · intro h
    exact ⟨h [] List.nil_prefix,
      fun p hp => h (c :: p) ((List.prefix_cons_inj c).mpr hp)⟩
  · rintro ⟨hnil, hcons⟩ p hp
    rcases List.prefix_cons_iff.mp hp with rfl | ⟨q, rfl, hq⟩
    · exact hnil
    · exact hcons q hq

/-- What the count says about the text. -/
theorem depthAfter?_eq_some_iff {d e : Nat} {cs : List Char} :
    depthAfter? d cs = some e ↔
      (∀ p, p <+: cs → p.count ')' ≤ d + p.count '(') ∧ d + cs.count '(' =
        e + cs.count ')' := by
  induction cs generalizing d with
  | nil => simp
  | cons c cs ih =>
      rw [forall_prefix_cons]
      by_cases hopen : c = '('
      · subst hopen
        simp [ih, Nat.add_assoc, Nat.add_comm 1]
      · by_cases hclose : c = ')'
        · subst hclose
          cases d with
          | zero =>
              -- The parenthesis on its own is already too much.
              rw [depthAfter?_close_zero]
              simp only [reduceCtorEq, false_iff]
              rintro ⟨⟨-, hle⟩, -⟩
              simpa using hle [] List.nil_prefix
          | succ d =>
              rw [depthAfter?_close_succ, ih]
              simp only [List.count_cons_self,
                List.count_cons_of_ne hopen, List.count_nil]
              grind
        · rw [depthAfter?_other hopen hclose, ih]
          simp [hopen, hclose]

/-- A text is balanced if counting from zero ends at zero and never falls below. -/
theorem balanced_iff {cs : List Char} : Balanced cs ↔ depthAfter? 0 cs = some 0 := by
  rw [depthAfter?_eq_some_iff]
  simp only [Nat.zero_add]
  exact ⟨fun h => ⟨h.closed_le, h.total⟩, fun h => ⟨h.1, h.2⟩⟩

instance (cs : List Char) : Decidable (Balanced cs) :=
  decidable_of_iff _ balanced_iff.symm

/-- The depth after two texts is counted in the second from where the first one
ends. -/
theorem depthAfter?_append (d : Nat) (xs ys : List Char) :
    depthAfter? d (xs ++ ys) = (depthAfter? d xs).bind (depthAfter? · ys) := by
  induction xs generalizing d with
  | nil => rfl
  | cons c xs ih =>
      rw [List.cons_append, depthAfter?, depthAfter?]
      split_ifs with hopen hclose hzero
      · exact ih (d + 1)
      · rfl
      · exact ih (d - 1)
      · exact ih d

/-- A balanced text leaves any number of parentheses open that were open in front of
it. -/
theorem Balanced.depthAfter?_eq {cs : List Char} (h : Balanced cs) (d : Nat) :
    depthAfter? d cs = some d := by
  rw [depthAfter?_eq_some_iff]
  refine ⟨?_, by rw [h.total]⟩
  intro p hp
  have := h.closed_le p hp
  omega

/-- **A balanced text may be put into another text anywhere**, and taken out of it
again. -/
theorem balanced_insert {cs : List Char} (h : Balanced cs) (front back : List Char) :
    Balanced (front ++ (cs ++ back)) ↔ Balanced (front ++ back) := by
  simp only [balanced_iff, depthAfter?_append, h.depthAfter?_eq, Option.bind_some]

theorem balanced_nil : Balanced [] := by decide

theorem Balanced.append {xs ys : List Char} (hx : Balanced xs) (hy : Balanced ys) :
    Balanced (xs ++ ys) :=
  (balanced_insert hx [] ys).mpr hy

/-- Parentheses around a balanced text leave it balanced. -/
theorem Balanced.parenthesized {cs : List Char} (h : Balanced cs) :
    Balanced ('(' :: (cs ++ [')'])) :=
  (balanced_insert h ['('] [')']).mpr (by decide)

/-- A text without parentheses. -/
def Unparenthesized (cs : List Char) : Prop :=
  ∀ c ∈ cs, c ≠ '(' ∧ c ≠ ')'

theorem Unparenthesized.balanced {cs : List Char}
    (h : Unparenthesized cs) : Balanced cs := by
  induction cs with
  | nil => exact balanced_nil
  | cons c cs ih =>
      obtain ⟨⟨hopen, hclose⟩, hcs⟩ := List.forall_mem_cons.mp h
      have hrest : depthAfter? 0 cs = some 0 := balanced_iff.mp (ih hcs)
      rw [balanced_iff, depthAfter?_other hopen hclose, hrest]

end Text

open Text

/-! ### Numbers -/

theorem unparenthesized_digits (n : Nat) : Unparenthesized (Nat.toDigits 10 n) := by
  intro c hc
  have hdigit : c.isDigit = true :=
    Nat.isDigit_of_mem_toDigits (by decide) (by decide) hc
  constructor <;>
    · rintro rfl
      exact absurd hdigit (by decide)

theorem unparenthesized_int (n : Int) : Unparenthesized (toString n).toList := by
  cases n with
  | ofNat n =>
      have htext : (toString (Int.ofNat n)).toList = Nat.toDigits 10 n := by
        simp [toString, Int.repr, Nat.repr_eq_ofList_toDigits]
      rw [htext]
      exact unparenthesized_digits n
  | negSucc n =>
      have htext : (toString (Int.negSucc n)).toList =
          '-' :: Nat.toDigits 10 (n + 1) := by
        simp [toString, Int.repr, Nat.repr_eq_ofList_toDigits]
      rw [htext]
      exact List.forall_mem_cons.mpr ⟨by decide, unparenthesized_digits (n + 1)⟩

theorem unparenthesized_zeros (n : Nat) : Unparenthesized (List.replicate n '0') := by
  intro c hc
  rw [List.eq_of_mem_replicate hc]
  decide

theorem Text.Unparenthesized.append {xs ys : List Char} (hx : Unparenthesized xs)
    (hy : Unparenthesized ys) : Unparenthesized (xs ++ ys) :=
  List.forall_mem_append.mpr ⟨hx, hy⟩

theorem Text.Unparenthesized.cons {c : Char} {cs : List Char} (hc : c ≠ '(' ∧ c ≠ ')')
    (h : Unparenthesized cs) : Unparenthesized (c :: cs) :=
  List.forall_mem_cons.mpr ⟨hc, h⟩

theorem Text.Unparenthesized.of_subset {xs ys : List Char}
    (h : Unparenthesized ys) (hsub : xs ⊆ ys) :
    Unparenthesized xs :=
  fun c hc => h c (hsub hc)

namespace NumberFormat

/-- The positional form of a number adds zeros and a point to its digits. -/
theorem unparenthesized_positional {digits : List Char}
    (h : Unparenthesized digits) (e : Int) :
    Unparenthesized (positional digits e) := by
  unfold positional
  split
  · exact .cons (by decide) (.cons (by decide) ((unparenthesized_zeros _).append h))
  · refine ((h.of_subset (List.take_subset _ _)).append
      (unparenthesized_zeros _)).append
      (.cons (by decide) ?_)
    split
    · exact unparenthesized_zeros 1
    · exact h.of_subset (List.drop_subset _ _)

/-- The scientific form of a number adds a point, a sign and an exponent to its
digits. -/
theorem unparenthesized_scientific (f : NumberFormat) {digits : List Char}
    (h : Unparenthesized digits)
    (e : Int) : Unparenthesized (f.scientific digits e) := by
  have hexponent : Unparenthesized (padded f.exponentDigits e.natAbs) :=
    (unparenthesized_zeros _).append (unparenthesized_digits _)
  have hsign : (if e < 0 then '-' else '+') ≠ '(' ∧
      (if e < 0 then '-' else '+') ≠ ')' := by
    split <;> decide
  unfold scientific
  refine ((h.of_subset (List.take_subset _ _)).append ?_).append
    (.cons (by decide) (.cons hsign hexponent))
  split
  · exact unparenthesized_zeros 0
  · exact .cons (by decide) (h.of_subset (List.drop_subset _ _))

theorem unparenthesized_layout (f : NumberFormat) (d : Decimal) :
    Unparenthesized (f.layout d) := by
  have hdigits : Unparenthesized
      ((Nat.toDigits 10 d.digits).reverse.dropWhile (· = '0')).reverse := by
    apply (unparenthesized_digits d.digits).of_subset
    intro c hc
    exact List.mem_reverse.mp ((List.dropWhile_subset _) (List.mem_reverse.mp hc))
  unfold layout
  dsimp only
  split
  · exact unparenthesized_positional hdigits _
  · exact unparenthesized_scientific f hdigits _

end NumberFormat

/-- A finite number is written without parentheses, whatever its form. -/
theorem Binary64.unparenthesized_finite (negative : Bool) (m : Nat) (q : Int) :
    Unparenthesized (Binary64.finite negative m q).text.toList := by
  have hmagnitude : Unparenthesized
      (if m = 0 then ['0', '.', '0'] else numberFormat.layout (shortest m q)) := by
    split
    · exact (unparenthesized_zeros 1).append
        (.cons (by decide) (unparenthesized_zeros 1))
    · exact NumberFormat.unparenthesized_layout _ _
  rw [Binary64.text, String.toList_ofList]
  cases negative with
  | false => exact hmagnitude
  | true => exact .cons (by decide) hmagnitude

/-! ### Templates -/

namespace Template

/-- Whether a piece is a character or a field such as `{0}`, which is replaced by an
argument as it stands: without accessors, a conversion or a layout. -/
def isBare : Piece → Bool
  | .literal _ => true
  | .field f =>
    f.conversion.isNone && f.padding.isEmpty && f.name.all fun c => c ≠ '.' && c ≠ '['

/-- The text of pieces with the fields read as empty. -/
def literals : List Piece → List Char
  | [] => []
  | .literal c :: ps => c :: literals ps
  | .field _ :: ps => literals ps

/-- A template with bare fields only that is balanced if these are read as empty. -/
structure Balanced (text : List Char) : Prop where
  bare : (pieces text).1.all isBare = true
  literals : Text.Balanced (literals (pieces text).1)

instance (text : List Char) : Decidable (Balanced text) :=
  decidable_of_iff ((pieces text).1.all isBare = true ∧
    Text.Balanced (literals (pieces text).1))
    ⟨fun h => ⟨h.1, h.2⟩, fun h => ⟨h.bare, h.literals⟩⟩

/-- The value of a field without accessors is an argument. -/
theorem mem_of_fieldValue {args : List (List Char)} {numbering after : Numbering}
    {name value : List Char} (hname : (name.all fun c => c ≠ '.' && c ≠ '[') = true)
    (h : fieldValue args numbering name = .ok (value, after)) : value ∈ args := by
  have hall : ∀ c ∈ name, (decide (c ≠ '.') && decide (c ≠ '[')) = true :=
    List.all_eq_true.mp hname
  rw [fieldValue, List.dropWhile_eq_nil_iff.mpr hall] at h
  obtain ⟨⟨number, next⟩, -, h⟩ := exists_of_bind_eq_ok h
  dsimp only at h
  cases harg : args[number]? with
  | none =>
      rw [harg] at h
      cases h
  | some arg =>
      rw [harg] at h
      cases h
      exact List.mem_of_getElem? harg

/-- A bare field is filled in by an argument, and the rest after it. -/
theorem exists_of_fillPieces_field {args : List (List Char)}
    {layout : Numbering → List Char → Except TemplateError (List Char × Numbering)}
    {numbering after : Numbering} {f : TemplateField}
    {ps : List Piece} {text : List Char} (hbare : isBare (.field f) = true)
    (h : fillPieces args layout numbering (.field f :: ps) = .ok (text, after)) :
    ∃ arg ∈ args, ∃ next rest, fillPieces args layout next ps = .ok (rest, after) ∧
      text = arg ++ rest := by
  obtain ⟨name, conversion, padding⟩ := f
  simp only [isBare, Bool.and_eq_true, Option.isNone_iff_eq_none,
    List.isEmpty_iff] at hbare
  obtain ⟨⟨rfl, rfl⟩, hname⟩ := hbare
  rw [fillPieces] at h
  obtain ⟨⟨arg, next⟩, hvalue, h⟩ := exists_of_bind_eq_ok h
  -- Neither the conversion nor the layout of a bare field does anything.
  change fillPieces args layout next ps >>= (fun r => pure (arg ++ r.1, r.2)) =
    .ok (text, after) at h
  obtain ⟨⟨rest, last⟩, hrest, h⟩ := exists_of_bind_eq_ok h
  cases h
  exact ⟨arg, mem_of_fieldValue hname hvalue, next, rest, hrest, rfl⟩

/-- Filling in keeps balance.  The induction moves what is filled in already to the
front, where the arguments have been put into a text that was balanced without
them. -/
theorem balanced_fillPieces {args : List (List Char)}
    (hargs : ∀ arg ∈ args, Text.Balanced arg)
    {layout : Numbering → List Char → Except TemplateError (List Char × Numbering)}
    {numbering after : Numbering} {ps : List Piece} {front text : List Char}
    (hbare : ps.all isBare = true) (hbalanced : Text.Balanced (front ++ literals ps))
    (h : fillPieces args layout numbering ps = .ok (text, after)) :
    Text.Balanced (front ++ text) := by
  induction ps generalizing numbering front text with
  | nil =>
      cases h
      exact hbalanced
  | cons piece ps ih =>
      rw [List.all_cons, Bool.and_eq_true] at hbare
      cases piece with
      | literal c =>
          rw [fillPieces] at h
          obtain ⟨⟨rest, next⟩, hrest, h⟩ := exists_of_bind_eq_ok h
          cases h
          rw [literals, List.append_cons] at hbalanced
          rw [List.append_cons]
          exact ih hbare.2 hbalanced hrest
      | field f =>
          obtain ⟨arg, harg, next, rest, hrest, rfl⟩ :=
            exists_of_fillPieces_field hbare.1 h
          have hinserted := (Text.balanced_insert (hargs arg harg) front
            (literals ps)).mpr hbalanced
          rw [← List.append_assoc] at hinserted ⊢
          exact ih hbare.2 hinserted hrest

/-- Balanced texts in a balanced template give a balanced text, since fields change
no depth by themselves. -/
theorem Balanced.fill {template : List Char} (h : Balanced template)
    {args : List (List Char)}
    (hargs : ∀ arg ∈ args, Text.Balanced arg) {text : List Char}
    (hfill : fill template args = .ok text) : Text.Balanced text := by
  rcases hpieces : pieces template with ⟨ps, flaw⟩
  obtain ⟨hbare, hliterals⟩ := h
  rw [hpieces] at hbare hliterals
  rw [Template.fill, fillNested, hpieces] at hfill
  obtain ⟨⟨filled, after⟩, hnested, htext⟩ := exists_of_bind_eq_ok hfill
  obtain ⟨⟨found, last⟩, hfound, hflaw⟩ := exists_of_bind_eq_ok hnested
  cases flaw with
  | some flaw => cases hflaw
  | none =>
      cases hflaw
      cases htext
      have hfilled : Text.Balanced ([] ++ text) :=
        balanced_fillPieces hargs hbare hliterals hfound
      exact hfilled

end Template

/-! ### Tables -/

/-- A way of writing that is balanced without its arguments, and is no function of
the library's user. -/
def Renderer.Balanced : Renderer → Prop
  | .join symbol => Text.Balanced symbol.toList
  | .call name => Text.Balanced name.toList
  | .template text => Template.Balanced text.toList
  | .custom _ => False

/-- A table whose texts are all balanced, and which holds no function of the
library's user. -/
structure FormulaTable.Balanced (t : FormulaTable) : Prop where
  constants : ∀ name text, t.constant? name = some text → Text.Balanced text.toList
  renderers : ∀ head m, t.mapping? head = some m → m.renderer.Balanced
  /-- What joins arguments inside of a subscript is balanced as well. -/
  subscripts : ∀ head m, t.mapping? head = some m →
    ∀ separator ∈ m.entry.subscriptSymbol, Text.Balanced separator.toList

namespace FormulaTable

/-- The separators of the standard operators hold no parentheses at all. -/
theorem standardOperators_balanced : ∀ m ∈ standardOperators, m.renderer.Balanced ∧
    ∀ separator ∈ m.entry.subscriptSymbol, Text.Balanced separator.toList := by
  simp [standardOperators, Mapping.operator, Renderer.Balanced]
  decide

/-- The standard table is balanced. -/
theorem standard_balanced : standard.Balanced := by
  have hconstants : ∀ c ∈ standardConstants, Text.Balanced c.2.toList := by decide
  have hcalls : ∀ c ∈ standardCalls, Text.Balanced c.2.toList := by decide
  have htemplates : ∀ t ∈ standardTemplates, Template.Balanced t.2.1.toList := by decide
  have hmappings : ∀ head m, standard.mapping? head = some m → m.renderer.Balanced ∧
      ∀ separator ∈ m.entry.subscriptSymbol, Text.Balanced separator.toList := by
    intro head m hm
    obtain hm | ⟨c, hc, rfl⟩ | ⟨t, ht, rfl⟩ := standard_mapping?_cases hm
    · exact standardOperators_balanced m hm
    · exact ⟨hcalls c hc, by simp [Mapping.call]⟩
    · exact ⟨htemplates t ht, by simp [Mapping.template]⟩
  refine ⟨?_, fun head m hm => (hmappings head m hm).1,
    fun head m hm => (hmappings head m hm).2⟩
  intro name text htext
  exact hconstants _ (Assoc.mem_of_lookup? htext)

end FormulaTable

/-! ### Formulas -/

namespace Formula

/-- Balanced texts with a balanced separator between them are balanced. -/
theorem balanced_joined {separator : List Char} (hseparator : Balanced separator)
    {texts : List (List Char)} (htexts : ∀ text ∈ texts, Balanced text) :
    Balanced (joined separator texts) := by
  fun_induction joined separator texts with
  | case1 => exact balanced_nil
  | case2 text => exact htexts text (by simp)
  | case3 text rest hne ih =>
      obtain ⟨htext, hrest⟩ := List.forall_mem_cons.mp htexts
      exact (htext.append hseparator).append (ih hrest)

variable {table : FormulaTable} {vars : VariableMap}

/-- A mapping keeps balance: what it writes around balanced arguments is balanced. -/
theorem balanced_applyMapping {m : Mapping} (hrenderer : m.renderer.Balanced)
    (hsubscript : ∀ separator ∈ m.entry.subscriptSymbol, Balanced separator.toList)
    {inSubscript : Bool} {args : List (List Char)} (hargs : ∀ arg ∈ args, Balanced arg)
    {text : List Char}
    (h : applyMapping m inSubscript args = .ok text) : Balanced text := by
  rw [applyMapping] at h
  generalize m.renderer = r at h hrenderer
  cases r with
  | join symbol =>
      have hchain : Balanced ('(' :: (joined symbol.toList args ++ [')'])) :=
        (balanced_joined hrenderer hargs).parenthesized
      cases inSubscript with
      | false =>
          cases h
          exact hchain
      | true =>
          cases hseparator : m.entry.subscriptSymbol with
          | none =>
              rw [hseparator] at h
              cases h
              exact hchain
          | some separator =>
              rw [hseparator] at h
              cases h
              exact balanced_joined (hsubscript separator hseparator) hargs
  | call name =>
      cases h
      have harguments : Balanced (joined [','] args) :=
        balanced_joined (by decide) hargs
      exact Text.Balanced.append hrenderer harguments.parenthesized
  | template template =>
      cases hfill : Template.fill template.toList args with
      | ok filled =>
          simp only [hfill] at h
          cases h
          exact Template.Balanced.fill hrenderer hargs hfill
      | error err =>
          simp only [hfill] at h
          cases err <;> cases h
  | custom f => exact hrenderer.elim

/-- A symbol is a constant of the table, a cell or its own name, all of which are
balanced. -/
theorem balanced_renderSymbol (htable : table.Balanced)
    (hvars : ∀ name cell, Assoc.lookup? name vars = some cell → Balanced cell.toList)
    {name : String} (hname : Balanced name.toList) :
    Balanced (renderSymbol table vars name) := by
  unfold renderSymbol
  cases hconstant : table.constant? name with
  | some text => exact htable.constants name text hconstant
  | none =>
      cases hcell : Assoc.lookup? name vars with
      | none => exact hname
      | some cell =>
          dsimp only
          split
          · exact hname
          · exact hvars name cell hcell

/-- What is written for a balanced expression is balanced. -/
theorem balanced_renderNode (htable : table.Balanced)
    (hvars : ∀ name cell, Assoc.lookup? name vars = some cell → Balanced cell.toList)
    {e : Json} (hsymbols : ∀ name ∈ e.symbols, Balanced name.toList) {levels : Nat}
    {inSubscript : Bool} {text : List Char}
    (h : renderNode table vars levels inSubscript e = .ok text) : Balanced text := by
  induction e using Json.expression_induction generalizing levels inSubscript text with
  | list head args ih =>
      cases hm : table.mapping? head with
      | none =>
          rw [renderNode, hm] at h
          cases h
      | some m =>
          obtain ⟨rest, texts, htexts, happly⟩ := exists_of_renderNode_list hm h
          refine balanced_applyMapping (htable.renderers head m hm)
            (htable.subscripts head m hm) ?_ happly
          intro written hwritten
          obtain ⟨arg, harg, place, hrender⟩ := exists_of_mem_renderArgs htexts hwritten
          apply ih arg harg _ hrender
          intro name hname
          apply hsymbols
          rw [Json.symbols]
          exact Json.mem_itemsSymbols.mpr ⟨arg, harg, hname⟩
  | leaf e hleaf =>
      obtain ⟨n, rfl⟩ | ⟨negative, mantissa, exponent, rfl⟩ |
          ⟨negative, constant, rfl, hconstant⟩ | ⟨name, rfl⟩ | hnot :=
        Json.leaf_cases table hleaf
      · rw [renderNode] at h
        rw [eq_of_renderInt h]
        exact (unparenthesized_int n).balanced
      · rw [renderNode] at h
        cases h
        exact (Binary64.unparenthesized_finite negative mantissa exponent).balanced
      · rw [renderNode, renderFloat, hconstant] at h
        cases h
        exact htable.constants _ _ hconstant
      · rw [renderNode] at h
        cases h
        exact balanced_renderSymbol htable hvars
          (hsymbols name (by simp [Json.symbols]))
      · rw [renderNode_of_not_IsNode hnot] at h
        cases h

end Formula

/-- **Formulas have balanced parentheses**, if the table, the symbols of the
expression and the cells that they stand for have; and the standard table has. -/
theorem balanced_formula :
    FormulaTable.standard.Balanced ∧
      ∀ (table : FormulaTable) (vars : VariableMap) (e : Json) (text : String),
        table.Balanced →
        (∀ name ∈ e.symbols, Balanced name.toList) →
          (∀ name cell, Assoc.lookup? name vars = some cell → Balanced cell.toList) →
            formula table vars e = .ok text → Balanced text.toList := by
  refine ⟨FormulaTable.standard_balanced, ?_⟩
  intro table vars e text htable hsymbols hvars h
  obtain ⟨written, hwritten, rfl⟩ := exists_of_formula h
  have hbalanced : Balanced written :=
    Formula.balanced_renderNode htable hvars hsymbols hwritten
  have hsign : Balanced ['='] := by decide
  rw [String.toList_ofList]
  exact hsign.append hbalanced

/-- A root of a call, with an index that is written without parentheses of its
own. -/
theorem balanced_formula_root :
    (∀ name ∈ (Json.array [.string "Root", .array [.string "Sin", .string "x"],
        .array [.string "Subscript", .string "a",
          .array [.string "InvisibleOperator", .string "i", .int (-1)]]]).symbols,
      Balanced name.toList) ∧
      formula .standard [("x", "SUM(A1:B2)"), ("i", "")] (.array [.string "Root",
        .array [.string "Sin", .string "x"],
        .array [.string "Subscript", .string "a",
          .array [.string "InvisibleOperator", .string "i", .int (-1)]]]) =
        .ok "=(SIN(SUM(A1:B2))^(1/a_i-1))" ∧
      Balanced "=(SIN(SUM(A1:B2))^(1/a_i-1))".toList := by
  have hsymbols : ∀ name ∈
      (Json.array [.string "Root", .array [.string "Sin", .string "x"],
      .array [.string "Subscript", .string "a",
      .array [.string "InvisibleOperator", .string "i", .int (-1)]]]).symbols,
      Balanced name.toList := by decide
  have hcells : ∀ entry ∈ [("x", "SUM(A1:B2)"), ("i", "")],
      Balanced entry.2.toList := by decide
  refine ⟨hsymbols, rfl,
    balanced_formula.2 .standard [("x", "SUM(A1:B2)"), ("i", "")] _ _
    balanced_formula.1 hsymbols ?_ rfl⟩
  intro name cell hcell
  exact hcells _ (Assoc.mem_of_lookup? hcell)

end Formulary
