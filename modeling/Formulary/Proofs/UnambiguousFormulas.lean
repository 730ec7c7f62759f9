import Mathlib.Data.List.Forall2
import Formulary.Proofs.FormulaDomain

/-!
# Arithmetic is written unambiguously

A chain of operands shares one pair of parentheses and negation shares its sign with
subtraction.  Even so, the formula of an arithmetic expression determines the
expression: its text can be read back from the left, and where it ends shows from
what follows (`Arithmetic.unambiguous`).
-/

namespace Formulary.Formula

open Formulary.Template

/-! ### Arithmetic expressions -/

/-- The heads of arithmetic chains and the characters between their operands. -/
def arithmeticMarks : List (String × Char) :=
  [("Add", '+'), ("Subtract", '-'), ("Multiply", '*'), ("Divide", '/'), ("Power", '^')]

/-- A name of ASCII letters and digits that starts with a letter. -/
def IsPlainName (name : String) : Prop :=
  (∃ c ∈ name.toList.head?, c.isAlpha) ∧ ∀ c ∈ name.toList, c.isAlphanum

/-- Expressions of chains of at least two operands, negations, and symbols that are
no constants. -/
inductive Arithmetic : Json → Prop
  | symbol {name : String} (hname : IsPlainName name)
      (hconstant : FormulaTable.standard.constant? name = none) :
        Arithmetic (.string name)
  | chain {head : String} {mark : Char} {args : List Json}
      (hmark : (head, mark) ∈ arithmeticMarks)
      (hcount : 2 ≤ args.length) (hargs : ∀ arg ∈ args, Arithmetic arg) :
      Arithmetic (.array (.string head :: args))
  | negate {arg : Json} (harg : Arithmetic arg) :
      Arithmetic (.array [.string "Negate", arg])

/-- Each arithmetic head is an operator with its mark between the arguments. -/
theorem standard_mapping?_of_mark {op : String × Char} (h : op ∈ arithmeticMarks) :
    FormulaTable.standard.mapping? op.1 =
      some (.operator op.1 (String.ofList [op.2]) none) := by
  revert op
  simp only [arithmeticMarks, List.forall_mem_cons]
  exact ⟨rfl, rfl, rfl, rfl, rfl, by simp⟩

theorem standard_mapping?_negate :
    FormulaTable.standard.mapping? "Negate" =
      some (.template "Negate" "(-\x7b0\x7d)" []) :=
  rfl

/-- The template of negation is plain, with one field. -/
theorem plain_negate : Template.Plain "(-\x7b0\x7d)".toList
    [.literal '(', .literal '-', .argument 0, .literal ')'] :=
  @plain_of_partsFrom? none _ _ (by decide)

/-- Arithmetic expressions have formulas. -/
theorem Arithmetic.renderable {e : Json} (h : Arithmetic e) :
    Renderable .standard e := by
  induction h with
  | symbol hname hconstant => exact .symbol _
  | chain hmark hcount hargs ih =>
      exact .list (standard_mapping?_of_mark hmark) (.join _) ih (by simp)
  | negate harg ih =>
      refine .list standard_mapping?_negate (.template plain_negate)
        (by simpa using ih) ?_
      simp [partNumbers]

/-! ### Their texts -/

/-- An arithmetic expression and its text. -/
def Spelled (e : Json) (text : List Char) : Prop :=
  Arithmetic e ∧ ∃ levels inSubscript,
    renderNode .standard [] levels inSubscript e = .ok text

/-- Operands behind the first one, each with the mark in front of it. -/
def marked (mark : Char) (texts : List (List Char)) : List Char :=
  texts.flatMap (mark :: ·)

/-- The first text has no mark in front, and all others do. -/
theorem joined_cons (mark : Char) (text : List Char) (texts : List (List Char)) :
    joined [mark] (text :: texts) = text ++ marked mark texts := by
  induction texts generalizing text with
  | nil => simp [joined, marked]
  | cons next texts ih => simp [joined, ih, marked]

/-- The texts of arithmetic arguments are spelled by them, one by one. -/
theorem forall₂_spelled {levels : Nat} {m : Mapping} {args : List Json}
    {texts : List (List Char)} (hargs : ∀ arg ∈ args, Arithmetic arg) {number : Nat}
    (h : renderArgs .standard [] levels m number args = .ok texts) :
    List.Forall₂ Spelled args texts := by
  induction args generalizing number texts with
  | nil =>
      cases h
      exact .nil
  | cons arg args ih =>
      obtain ⟨harg, hargs⟩ := List.forall_mem_cons.mp hargs
      obtain ⟨text, rest, htext, hrest, rfl⟩ := exists_of_renderArgs_cons h
      exact .cons ⟨harg, levels, _, htext⟩ (ih hargs hrest)

/-- An operator is written with its mark between the arguments, in parentheses. -/
theorem applyMapping_operator (tag : String) (mark : Char) (inSubscript : Bool)
    (texts : List (List Char)) :
    applyMapping (.operator tag (String.ofList [mark]) none) inSubscript texts =
      .ok ('(' :: (joined [mark] texts ++ [')'])) := by
  cases inSubscript <;> simp [applyMapping, Mapping.operator]

/-- Negation is written with a minus sign in front, in parentheses. -/
theorem applyMapping_negate (inSubscript : Bool) (text : List Char) :
    applyMapping (.template "Negate" "(-\x7b0\x7d)" []) inSubscript [text] =
      .ok ('(' :: '-' :: (text ++ [')'])) := by
  simp only [applyMapping, Mapping.template, fill_of_plain plain_negate]
  rfl

/-- The three forms of an arithmetic expression, and its text with what follows. -/
theorem Spelled.cases {e : Json} {text : List Char} (h : Spelled e text)
    (rest : List Char) :
    (∃ name, e = .string name ∧ IsPlainName name ∧ text ++ rest = name.toList ++ rest) ∨
      (∃ head mark arg args first texts, e = .array (.string head :: arg :: args) ∧
        (head, mark) ∈ arithmeticMarks ∧ args ≠ [] ∧ Spelled arg first ∧
        List.Forall₂ Spelled args texts ∧
        text ++ rest = '(' :: (first ++ (marked mark texts ++ ')' :: rest))) ∨
      ∃ arg inner, e = .array [.string "Negate", arg] ∧ Spelled arg inner ∧
        text ++ rest = '(' :: '-' :: (inner ++ ')' :: rest) := by
  obtain ⟨hexpr, levels, inSubscript, hrender⟩ := h
  cases hexpr with
  | @symbol name hname hconstant =>
      rw [renderNode, renderSymbol, hconstant] at hrender
      cases hrender
      exact .inl ⟨name, rfl, hname, rfl⟩
  | @chain head mark args hmark hcount hargs =>
      obtain ⟨entered, texts, htexts, happly⟩ :=
        exists_of_renderNode_list (standard_mapping?_of_mark hmark) hrender
      rw [applyMapping_operator] at happly
      cases happly
      cases forall₂_spelled hargs htexts with
      | nil => simp at hcount
      | @cons arg first args texts hfirst hrest =>
          refine .inr (.inl ⟨head, mark, arg, args, first, texts, rfl, hmark,
            ?_, hfirst, hrest, ?_⟩)
          · rintro rfl
            simp at hcount
          · simp [joined_cons]
  | @negate arg harg =>
      obtain ⟨entered, texts, htexts, happly⟩ :=
        exists_of_renderNode_list standard_mapping?_negate hrender
      obtain ⟨inner, texts, hinner, hnil, rfl⟩ := exists_of_renderArgs_cons htexts
      cases hnil
      rw [applyMapping_negate] at happly
      cases happly
      exact .inr (.inr ⟨arg, inner, rfl, ⟨harg, entered, _, hinner⟩, by simp⟩)

/-! ### Reading texts back -/

/-- Texts of one kind of characters that end where another kind starts are determined
by what they and the rest make up. -/
theorem eq_of_append_eq {p : Char → Bool}
    {x x' rest rest' : List Char} (hx : ∀ c ∈ x, p c) (hx' : ∀ c ∈ x', p c)
    (hrest : ∀ c ∈ rest.head?, p c = false) (hrest' : ∀ c ∈ rest'.head?, p c = false)
    (h : x ++ rest = x' ++ rest') :
    x = x' ∧ rest = rest' := by
  induction x generalizing x' with
  | nil =>
      cases x' with
      | nil => exact ⟨rfl, h⟩
      | cons c x' =>
          obtain rfl : rest = c :: (x' ++ rest') := h
          simp_all
  | cons c x ih =>
      cases x' with
      | nil =>
          obtain rfl : c :: (x ++ rest) = rest' := h
          simp_all
      | cons c' x' =>
          obtain ⟨rfl, hcs⟩ := List.cons.inj h
          obtain ⟨rfl, hrests⟩ :=
            ih (fun c hc => hx c (.tail _ hc)) (fun c hc => hx' c (.tail _ hc)) hcs
          exact ⟨rfl, hrests⟩

/-- A plain name starts with a letter, so nothing else does. -/
theorem IsPlainName.append_ne {name : String} (h : IsPlainName name) {d : Char}
    (hd : d.isAlpha = false) (rest rest' : List Char) :
    name.toList ++ rest ≠ d :: rest' := by
  obtain ⟨⟨c, hc, halpha⟩, -⟩ := h
  obtain ⟨cs, hcs⟩ := List.head?_eq_some_iff.mp hc
  rw [hcs]
  intro heq
  obtain rfl : c = d := (List.cons.inj heq).1
  simp [hd] at halpha

/-- No text of an expression starts with a sign. -/
theorem Spelled.append_ne {e : Json} {text : List Char} (h : Spelled e text)
    (rest rest' : List Char) : text ++ rest ≠ '-' :: rest' := by
  obtain ⟨name, -, hname, htext⟩ | ⟨_, _, _, _, _, _, -, -, -, -, -, htext⟩
      | ⟨_, _, -, -, htext⟩ :=
    h.cases rest
  · rw [htext]
    exact hname.append_ne (by decide) rest rest'
  · simp [htext]
  · simp [htext]

/-- A text that does not continue a name. -/
def EndsName (rest : List Char) : Prop := ∀ c ∈ rest.head?, c.isAlphanum = false

theorem endsName_close (rest : List Char) : EndsName (')' :: rest) := by
  simp only [EndsName, List.head?_cons, Option.mem_some_iff, forall_eq']
  decide

/-- A name ends before a mark or a closing parenthesis. -/
theorem endsName_marked {head : String} {mark : Char}
    (hmark : (head, mark) ∈ arithmeticMarks) (texts : List (List Char))
    (rest : List Char) :
    EndsName (marked mark texts ++ ')' :: rest) := by
  cases texts with
  | nil => exact endsName_close rest
  | cons text texts =>
      intro c hc
      obtain rfl : mark = c := Option.some.inj hc
      exact (by decide : ∀ op ∈ arithmeticMarks, op.2.isAlphanum = false) _ hmark

/-- The text of an expression determines it, together with where it ends. -/
def Unambiguous (e : Json) : Prop :=
  ∀ ⦃e' : Json⦄ ⦃text text' rest rest' : List Char⦄, Spelled e text → Spelled e' text' →
    EndsName rest → EndsName rest' → text ++ rest = text' ++ rest' →
      e = e' ∧ rest = rest'

/-- If the texts of operands are unambiguous, then so is the text of all of them. -/
theorem eq_of_marked_eq {head : String} {mark : Char}
    (hmark : (head, mark) ∈ arithmeticMarks) {args args' : List Json}
    {texts texts' : List (List Char)} {rest rest' : List Char}
    (hargs : ∀ arg ∈ args, Unambiguous arg) (h : List.Forall₂ Spelled args texts)
    (h' : List.Forall₂ Spelled args' texts')
    (heq : marked mark texts ++ ')' :: rest = marked mark texts' ++ ')' :: rest') :
    args = args' ∧ rest = rest' := by
  have hclose : mark ≠ ')' := (by decide : ∀ op ∈ arithmeticMarks, op.2 ≠ ')') _ hmark
  induction h generalizing args' texts' with
  | nil =>
      cases h' with
      | nil => exact ⟨rfl, (List.cons.inj heq).2⟩
      | cons _ _ => exact absurd (List.cons.inj heq).1.symm hclose
  | cons hfirst hrest ih =>
      cases h' with
      | nil => exact absurd (List.cons.inj heq).1 hclose
      | cons hfirst' hrest' =>
          obtain ⟨hunambiguous, hargs⟩ := List.forall_mem_cons.mp hargs
          simp only [marked, List.flatMap_cons, List.cons_append,
            List.append_assoc] at heq
          obtain ⟨rfl, heq⟩ := hunambiguous hfirst hfirst' (endsName_marked hmark _ _)
            (endsName_marked hmark _ _) (List.cons.inj heq).2
          obtain ⟨rfl, hrests⟩ := ih hargs hrest' heq
          exact ⟨rfl, hrests⟩

/-- Two chains with one text have the same head and the same operands. -/
theorem eq_of_chain_eq {head head' : String} {mark mark' : Char} {arg arg' : Json}
    {args args' : List Json} {first first' rest rest' : List Char}
    {texts texts' : List (List Char)} (hmark : (head, mark) ∈ arithmeticMarks)
    (hmark' : (head', mark') ∈ arithmeticMarks) (hne : args ≠ []) (hne' : args' ≠ [])
    (hunambiguous : ∀ a ∈ arg :: args, Unambiguous a) (hfirst : Spelled arg first)
    (hfirst' : Spelled arg' first') (htexts : List.Forall₂ Spelled args texts)
    (htexts' : List.Forall₂ Spelled args' texts')
    (heq : first ++ (marked mark texts ++ ')' :: rest) =
      first' ++ (marked mark' texts' ++ ')' :: rest')) :
    head = head' ∧ arg :: args = arg' :: args' ∧ rest = rest' := by
  obtain ⟨harg, hargs⟩ := List.forall_mem_cons.mp hunambiguous
  obtain ⟨rfl, heq⟩ :=
    harg hfirst hfirst' (endsName_marked hmark _ _) (endsName_marked hmark' _ _) heq
  -- The mark in front of the second operand is the one of the head.
  obtain rfl : mark = mark' := by
    cases htexts with
    | nil => exact absurd rfl hne
    | cons _ _ =>
        cases htexts' with
        | nil => exact absurd rfl hne'
        | cons _ _ => exact (List.cons.inj heq).1
  have hheads : ∀ op ∈ arithmeticMarks, ∀ op' ∈ arithmeticMarks, op.2 =
      op'.2 → op.1 = op'.1 := by
    decide
  obtain ⟨rfl, hrests⟩ := eq_of_marked_eq hmark hargs htexts htexts' heq
  exact ⟨hheads _ hmark _ hmark' rfl, rfl, hrests⟩

/-- An expression is unambiguous if its arguments are. -/
theorem unambiguous_of_arguments {e : Json}
    (hargs : ∀ head args, e = .array (head :: args) → ∀ arg ∈ args, Unambiguous arg) :
    Unambiguous e := by
  intro e' text text' rest rest' h h' hrest hrest' heq
  rcases h.cases rest with ⟨name, rfl, hname, htext⟩ |
      ⟨head, mark, arg, args, first, texts, rfl, hmark, hne, hfirst, htexts, htext⟩ |
      ⟨arg, inner, rfl, hinner, htext⟩ <;>
    rcases h'.cases rest' with ⟨name', rfl, hname', htext'⟩ |
      ⟨head', mark', arg', args', first', texts', rfl, hmark', hne',
        hfirst', htexts', htext'⟩ |
      ⟨arg', inner', rfl, hinner', htext'⟩ <;>
    rw [htext, htext'] at heq
  -- A symbol starts with a letter, and the other forms with a parenthesis.
  · obtain ⟨hnames, hrests⟩ := eq_of_append_eq hname.2 hname'.2 hrest hrest' heq
    exact ⟨congrArg Json.string (String.toList_inj.mp hnames), hrests⟩
  · exact absurd heq (hname.append_ne (by decide) _ _)
  · exact absurd heq (hname.append_ne (by decide) _ _)
  -- Behind the parenthesis of a chain stands its first operand, which has no sign.
  · exact absurd heq.symm (hname'.append_ne (by decide) _ _)
  · obtain ⟨rfl, hlists, hrests⟩ :=
      eq_of_chain_eq hmark hmark' hne hne' (hargs _ _ rfl) hfirst
        hfirst' htexts htexts' (List.cons.inj heq).2
    rw [hlists]
    exact ⟨rfl, hrests⟩
  · exact absurd (List.cons.inj heq).2 (hfirst.append_ne _ _)
  -- Behind that of a negation stands the sign.
  · exact absurd heq.symm (hname'.append_ne (by decide) _ _)
  · exact absurd (List.cons.inj heq).2.symm (hfirst'.append_ne _ _)
  · obtain ⟨rfl, hrests⟩ :=
      hargs _ _ rfl arg (by simp) hinner hinner' (endsName_close rest)
        (endsName_close rest') (List.cons.inj (List.cons.inj heq).2).2
    exact ⟨rfl, (List.cons.inj hrests).2⟩

/-- The text of an arithmetic expression is unambiguous. -/
theorem Arithmetic.unambiguous {e : Json} (h : Arithmetic e) : Unambiguous e := by
  induction h with
  | symbol hname hconstant => exact unambiguous_of_arguments (by simp)
  | chain hmark hcount hargs ih =>
      refine unambiguous_of_arguments fun head args heq => ?_
      cases heq
      exact ih
  | negate harg ih =>
      refine unambiguous_of_arguments fun head args heq => ?_
      cases heq
      simpa using ih

/-- **The formula of an arithmetic expression determines the expression**, and every
arithmetic expression that is not nested too deeply has one. -/
theorem arithmetic_determined :
    (∀ e, Arithmetic e → e.height ≤ expressionLimit + 1 →
      ∃ text, formula .standard [] e = .ok text) ∧
      ∀ e e' text, Arithmetic e → Arithmetic e' → formula .standard [] e = .ok text →
        formula .standard [] e' = .ok text → e = e' := by
  refine ⟨fun e h hheight => ?_, fun e e' text h h' htext htext' => ?_⟩
  · obtain ⟨text, htext⟩ := exists_formula_eq_ok h.renderable hheight []
    exact ⟨_, htext⟩
  · obtain ⟨x, hx, hxtext⟩ := exists_of_formula htext
    obtain ⟨x', hx', hxtext'⟩ := exists_of_formula htext'
    obtain rfl : x = x' :=
      (List.cons.inj (String.ofList_injective (hxtext.symm.trans hxtext'))).2
    have hends : EndsName [] := by simp [EndsName]
    exact (h.unambiguous ⟨h, _, _, hx⟩ ⟨h', _, _, hx'⟩ hends hends rfl).1

/-- Only a difference of a difference and a negation is written as in
`((a-b)-(-c))`. -/
theorem arithmetic_determined_difference :
    Arithmetic (.array
      [.string "Subtract", .array [.string "Subtract", .string "a", .string "b"],
        .array [.string "Negate", .string "c"]]) ∧
      formula .standard [] (.array [.string "Subtract",
        .array [.string "Subtract", .string "a", .string "b"],
        .array [.string "Negate", .string "c"]]) = .ok "=((a-b)-(-c))" ∧
      ∀ e, Arithmetic e → formula .standard [] e = .ok "=((a-b)-(-c))" →
        e = .array [.string "Subtract",
          .array [.string "Subtract", .string "a", .string "b"],
          .array [.string "Negate", .string "c"]] := by
  have hletter : ∀ name ∈ ["a", "b", "c"], Arithmetic (.string name) := by
    simp only [List.forall_mem_cons]
    refine ⟨.symbol ⟨⟨'a', rfl, rfl⟩, by simp⟩ rfl,
      .symbol ⟨⟨'b', rfl, rfl⟩, by simp⟩ rfl,
      .symbol ⟨⟨'c', rfl, rfl⟩, by simp⟩ rfl, by simp⟩
  have hmark : ("Subtract", '-') ∈ arithmeticMarks := by decide
  have hinner : Arithmetic (.array [.string "Subtract", .string "a", .string "b"]) :=
    .chain hmark (by decide)
      (by simpa using ⟨hletter "a" (by simp), hletter "b" (by simp)⟩)
  have hexpr : Arithmetic (.array [.string "Subtract",
      .array [.string "Subtract", .string "a", .string "b"],
      .array [.string "Negate", .string "c"]]) :=
    .chain hmark (by decide) (by simpa using ⟨hinner, .negate (hletter "c" (by simp))⟩)
  refine ⟨hexpr, rfl, fun e h htext => ?_⟩
  exact arithmetic_determined.2 _ _ _ h hexpr htext rfl

end Formulary.Formula
