import Mathlib.Algebra.Ring.Int.Defs
import Formulary.Command.Standard
import Formulary.Proofs.Splitting

/-!
# Delimiters in front of the comma

The comma that ends the body of an equation stands outside of the brackets of the
body and outside of its pairs of `\left` and `\right`: of both, as many are opened as
closed in front of it.  Delimiters of a fixed size, such as `\bigl` and `\bigr`, do
not keep a comma in the body: the commands are not counted, and a bracket behind one
of them is its argument and no node of the body.

* `sum_of_splitConstraint` is what the cut itself guarantees.
* `Cut.bodyNodes` are the nodes in front of the comma, and `bodyNodes_of_cut` says
  which trees they are made from.
* `enclosed_comma_iff` says exactly when the comma is outside of all delimiters.
-/

namespace Formulary

open Formulary.Markup

/-! ### Delimiters -/

/-- The commands in front of an opening delimiter of a fixed size. -/
def sizedOpeners : List String := ["bigl", "Bigl", "biggl", "Biggl"]

/-- The commands in front of a closing delimiter of a fixed size. -/
def sizedClosers : List String := ["bigr", "Bigr", "biggr", "Biggr"]

/-- Whether a node is one of the given characters. -/
def isCharOf (chars : List Char) : Node → Bool
  | .text [c] _ => chars.contains c
  | _ => false

/-- Whether a node is a command with one of the given names. -/
def isCommandOf (names : List String) : Node → Bool
  | .command name _ _ => names.contains name
  | _ => false

/-- Whether a node opens a delimiter. -/
def opensDelimiter (n : Node) : Bool :=
  isCharOf ['(', '['] n || isCommandOf ("left" :: sizedOpeners) n

/-- Whether a node closes a delimiter. -/
def closesDelimiter (n : Node) : Bool :=
  isCharOf [')', ']'] n || isCommandOf ("right" :: sizedClosers) n

/-- Brackets, commands with one name and commands with other names are counted
apart. -/
theorem countP_delimiters {chars : List Char} {name : String} {names : List String}
    (hname : name ∉ names) (ns : List Node) :
    ns.countP (fun n => isCharOf chars n || isCommandOf (name :: names) n) =
      ns.countP (isCharOf chars) + ns.countP (isCommandOf [name]) +
        ns.countP (isCommandOf names) := by
  induction ns with
  | nil => rfl
  | cons n ns ih =>
      -- The three kinds exclude each other.
      have hnode : (if (isCharOf chars n || isCommandOf (name :: names) n) =
          true then 1 else 0) =
          (if isCharOf chars n = true then 1 else 0) +
            (if isCommandOf [name] n = true then 1 else 0) +
            if isCommandOf names n = true then 1 else 0 := by
        cases n with
        | command other _ _ =>
            by_cases h : other = name
            · subst h
              simp [isCharOf, isCommandOf, hname]
            · simp [isCharOf, isCommandOf, h]
        | _ => simp [isCommandOf]
      rw [List.countP_cons, List.countP_cons, List.countP_cons,
        List.countP_cons, ih, hnode]
      omega

/-- Opening delimiters are brackets, those of a pair of commands, and sized ones. -/
theorem countP_opensDelimiter (ns : List Node) :
    ns.countP opensDelimiter =
      ns.countP (isCharOf ['(', '[']) + ns.countP (isCommandOf ["left"]) +
      ns.countP (isCommandOf sizedOpeners) :=
  countP_delimiters (by decide) ns

/-- Closing delimiters are brackets, those of a pair of commands, and sized ones. -/
theorem countP_closesDelimiter (ns : List Node) :
    ns.countP closesDelimiter =
      ns.countP (isCharOf [')', ']']) + ns.countP (isCommandOf ["right"]) +
      ns.countP (isCommandOf sizedClosers) :=
  countP_delimiters (by decide) ns

/-! ### What the cut counts -/

/-- How a tree changes the depth in brackets can be told from its node. -/
theorem bracketChange_eq (t : Tree) (start : Nat) :
    bracketChange t = (if isCharOf ['(', '['] (t.node start) = true then 1 else 0) -
      if isCharOf [')', ']'] (t.node start) = true then 1 else 0 := by
  cases t with
  | text chars =>
      match chars with
      | [] => rfl
      | [c] =>
          unfold bracketChange
          split <;> simp_all [Markup.Tree.node, isCharOf]
      | _ :: _ :: _ => simp [bracketChange, Markup.Tree.node, isCharOf]
  | gap lexeme => by_cases h : lexeme.kind = .comment <;>
      simp [bracketChange, Markup.Tree.node, h, isCharOf]
  | _ => rfl

/-- How a tree changes the depth in delimiters can be told from its node. -/
theorem delimiterChange_eq (t : Tree) (start : Nat) :
    delimiterChange t = (if isCommandOf ["left"] (t.node start) = true then 1 else 0) -
      if isCommandOf ["right"] (t.node start) = true then 1 else 0 := by
  cases t with
  | gap lexeme =>
      by_cases h : lexeme.kind = .comment <;>
        simp [delimiterChange, Markup.Tree.node, h, isCommandOf]
  | command head args missing =>
      unfold delimiterChange
      split_ifs <;> simp_all [Markup.Tree.node, isCommandOf]
  | _ => rfl

/-- The changes that trees make add up to what is opened less what is closed among
their nodes. -/
theorem sum_changes {change : Tree → Int} {opens closes : Node → Bool}
    (h : ∀ t start, change t = (if opens (t.node start) = true then 1 else 0) -
      if closes (t.node start) = true then 1 else 0) (start : Nat) (ts : List Tree) :
    (ts.map change).sum =
      ((treesNodes start ts).countP opens : Int) -
        (treesNodes start ts).countP closes := by
  induction ts generalizing start with
  | nil => rfl
  | cons t ts ih =>
      rw [List.map_cons, List.sum_cons, ih (start + t.width), h t start,
        treesNodes, List.countP_cons, List.countP_cons]
      split_ifs <;> omega

/-- Nothing is open in front of the comma that trees are cut at. -/
theorem sum_of_splitConstraint {brackets delimiters : Int} {ts us vs : List Tree}
    (h : splitConstraint brackets delimiters ts = some (us, vs)) :
    brackets + (us.map bracketChange).sum = 0 ∧
      delimiters + (us.map delimiterChange).sum = 0 := by
  fun_induction splitConstraint brackets delimiters ts generalizing us with
  | case1 => simp at h
  | case2 brackets delimiters t rest hcomma =>
      obtain ⟨rfl, rfl⟩ := Prod.mk.inj (Option.some.inj h)
      simp [hcomma.2]
  | case3 brackets delimiters t rest hcomma ih =>
      obtain ⟨⟨us', vs'⟩, hsplit, heq⟩ := Option.map_eq_some_iff.mp h
      obtain ⟨rfl, rfl⟩ := Prod.mk.inj heq
      obtain ⟨hbrackets, hdelimiters⟩ := ih hsplit
      simp only [List.map_cons, List.sum_cons]
      omega

/-! ### The nodes in front of the comma -/

/-- Whether a node stands between two offsets. -/
def standsBetween (first last : Nat) (n : Node) : Bool :=
  n.span.any fun span => first ≤ span.start && span.stop ≤ last

/-- The nodes of trees stand between the start and the end of the trees. -/
theorem span_of_mem_treesNodes {start : Nat} {ts : List Tree} {n : Node}
    (h : n ∈ treesNodes start ts) :
    ∃ span, n.span = some span ∧ start ≤ span.start ∧ span.start ≤ span.stop ∧
      span.stop ≤ start + (treesChars ts).length := by
  induction ts generalizing start with
  | nil => simp [treesNodes] at h
  | cons t ts ih =>
      rw [treesChars, List.length_append]
      rcases List.mem_cons.mp h with rfl | h
      · refine ⟨_, t.span_node start, Nat.le_refl start, Nat.le_add_right _ _, ?_⟩
        simp only [Tree.width]
        omega
      · obtain ⟨span, hspan, hstart, hle, hstop⟩ := ih h
        rw [Tree.width] at hstart hstop
        exact ⟨span, hspan, by omega, hle, by omega⟩

/-- The nodes of trees that end in a single character start before the end of the
trees. -/
theorem start_lt_of_mem_treesNodes {start : Nat} {ts : List Tree} {c : Char} {n : Node}
    (h : n ∈ treesNodes start (ts ++ [.text [c]])) :
    ∃ span, n.span = some span ∧ span.start <
      start + (treesChars (ts ++ [.text [c]])).length := by
  have hlength : (treesChars (ts ++ [.text [c]])).length =
      (treesChars ts).length + 1 := by
    simp [treesChars, Tree.chars]
  rw [treesNodes_append, List.mem_append] at h
  rcases h with h | h
  · obtain ⟨span, hspan, -, hle, hstop⟩ := span_of_mem_treesNodes h
    exact ⟨span, hspan, by omega⟩
  · obtain rfl := List.mem_singleton.mp h
    exact ⟨_, rfl, by simp only; omega⟩

/-- The nodes of trees that start with a single character end behind the start of the
trees. -/
theorem lt_stop_of_mem_treesNodes {start : Nat} {ts : List Tree} {c : Char} {n : Node}
    (h : n ∈ treesNodes start (.text [c] :: ts)) :
    ∃ span, n.span = some span ∧ start < span.stop := by
  rcases List.mem_cons.mp h with rfl | h
  · exact ⟨_, rfl, Nat.lt_succ_self start⟩
  · obtain ⟨span, hspan, hstart, hle, -⟩ := span_of_mem_treesNodes h
    have hwidth : (Tree.text [c]).width = 1 := rfl
    exact ⟨span, hspan, by omega⟩

/-- Between the offsets where some of the trees start and end stand the nodes of
these trees. -/
theorem filter_standsBetween {ts us vs : List Tree} {first last : Nat}
    (hfirst : first = (treesChars ts).length)
    (hlast : last = first + (treesChars us).length)
    (hts : ∀ n ∈ treesNodes 0 ts, ∃ span, n.span = some span ∧ span.start < first)
    (hvs : ∀ n ∈ treesNodes last vs, ∃ span, n.span = some span ∧ last < span.stop) :
    (treesNodes 0 (ts ++ (us ++ vs))).filter (standsBetween first last) =
      treesNodes first us := by
  have hinside : ∀ n ∈ treesNodes first us, standsBetween first last n = true := by
    intro n hn
    obtain ⟨span, hspan, hstart, -, hstop⟩ := span_of_mem_treesNodes hn
    simp [standsBetween, hspan, hstart, hlast, hstop]
  have hbefore : ∀ n ∈ treesNodes 0 ts, ¬ standsBetween first last n = true := by
    intro n hn
    obtain ⟨span, hspan, hstart⟩ := hts n hn
    simp [standsBetween, hspan, Nat.not_le.mpr hstart]
  have hbehind : ∀ n ∈ treesNodes last vs, ¬ standsBetween first last n = true := by
    intro n hn
    obtain ⟨span, hspan, hstop⟩ := hvs n hn
    simp [standsBetween, hspan, Nat.not_le.mpr hstop]
  rw [treesNodes_append, treesNodes_append, Nat.zero_add, ← hfirst,
    ← hlast, List.filter_append, List.filter_append, List.filter_eq_nil_iff.mpr hbefore,
    List.filter_eq_self.mpr hinside, List.filter_eq_nil_iff.mpr hbehind,
    List.nil_append, List.append_nil]

namespace Cut

/-- The offset at which the body of an equation starts: just behind the equals sign,
if there is one. -/
def bodyStart (p : EquationParts) : Cut → Nat
  | .both | .assignment => p.declaration.length + 1
  | .comma | .neither => 0

/-- The nodes of a source that stand in its body. -/
def bodyNodes (table : CommandTable) (source : String) : List Node :=
  let p := EquationParts.ofSource table source
  let start := (Cut.ofSource table source).bodyStart p
  (parse table source).nodes.filter (standsBetween start (start + p.body.length))

end Cut

variable {table : CommandTable} {source : String}

/-- What is known of an equation that is cut at a comma: the trees in front of its
body end in the equals sign, if there are any, and the body is what is cut off from
the others at the comma. -/
theorem exists_of_cut
    (h : Cut.ofSource table source = .both ∨ Cut.ofSource table source = .comma) :
    ∃ ts rest bs cs, (parse table source).trees = ts ++ rest ∧
      splitConstraint 0 0 rest = some (bs, cs) ∧
        (ts = [] ∨ ∃ ds, ts = ds ++ [.text ['=']]) ∧
      (Cut.ofSource table source).bodyStart (EquationParts.ofSource table source) =
        (treesChars ts).length ∧
      (EquationParts.ofSource table source).body = EquationParts.textOf bs := by
  by_cases hdepth : (parse table source).depth ≤ nestingLimit
  · have hok : parseWithin table source = .ok (parse table source) := if_pos hdepth
    simp only [Cut.ofSource, EquationParts.ofSource, hok] at h ⊢
    rcases hassign : splitAssignment false (parse table source).trees
      with _ | ⟨ds, rest⟩
    · rcases hcomma : splitConstraint 0 0 (parse table source).trees with _ | ⟨bs, cs⟩
      · simp [Cut.ofTrees, hassign, hcomma] at h
      · refine ⟨[], _, bs, cs, rfl, hcomma, .inl rfl, ?_⟩
        simp [Cut.ofTrees, EquationParts.ofTrees, EquationParts.ofBody, hassign,
          hcomma, Cut.bodyStart, treesChars]
    · rcases hcomma : splitConstraint 0 0 rest with _ | ⟨bs, cs⟩
      · simp [Cut.ofTrees, hassign, hcomma] at h
      · refine ⟨ds ++ [.text ['=']], rest, bs, cs, ?_, hcomma, .inr ⟨ds, rfl⟩, ?_⟩
        · simpa using eq_append_of_splitAssignment hassign
        · simp [Cut.ofTrees, EquationParts.ofTrees, EquationParts.ofBody, hassign,
            hcomma, Cut.bodyStart, EquationParts.textOf, treesChars, Tree.chars]
  · have herror : parseWithin table source = .error .nesting := if_neg hdepth
    simp [Cut.ofSource, herror] at h

/-- In front of the comma that an equation is cut at stand the nodes of the trees
that are cut off there. -/
theorem bodyNodes_of_cut
    (h : Cut.ofSource table source = .both ∨ Cut.ofSource table source = .comma) :
    ∃ start rest bs cs, splitConstraint 0 0 rest = some (bs, cs) ∧
      Cut.bodyNodes table source = treesNodes start bs := by
  obtain ⟨ts, rest, bs, cs, htrees, hsplit, hts, hstart, hbody⟩ := exists_of_cut h
  refine ⟨(treesChars ts).length, rest, bs, cs, hsplit, ?_⟩
  have hlength : (EquationParts.textOf bs).length = (treesChars bs).length :=
    String.length_ofList
  simp only [Cut.bodyNodes, hstart, hbody, hlength, Document.nodes]
  rw [htrees, exists_append_of_splitComma htrees hsplit]
  refine filter_standsBetween rfl rfl (fun n hn => ?_) fun n =>
    lt_stop_of_mem_treesNodes
  rcases hts with rfl | ⟨ds, rfl⟩
  · simp [treesNodes] at hn
  · simpa using start_lt_of_mem_treesNodes hn

/-- **When the comma stands outside of all delimiters.**  In front of the comma that
an equation is cut at, as many brackets are opened as closed, and `\left` stands as
often as `\right`.  So no more delimiters are opened than closed there exactly when
that holds of the delimiters of a fixed size. -/
theorem enclosed_comma_iff (table : CommandTable) (source : String)
    (h : Cut.ofSource table source = .both ∨ Cut.ofSource table source = .comma) :
    ((Cut.bodyNodes table source).countP (isCharOf ['(', '[']) =
        (Cut.bodyNodes table source).countP (isCharOf [')', ']']) ∧
      (Cut.bodyNodes table source).countP (isCommandOf ["left"]) =
        (Cut.bodyNodes table source).countP (isCommandOf ["right"])) ∧
    ((Cut.bodyNodes table source).countP opensDelimiter ≤
        (Cut.bodyNodes table source).countP closesDelimiter ↔
      (Cut.bodyNodes table source).countP (isCommandOf sizedOpeners) ≤
        (Cut.bodyNodes table source).countP (isCommandOf sizedClosers)) := by
  obtain ⟨start, rest, bs, cs, hsplit, hnodes⟩ := bodyNodes_of_cut h
  obtain ⟨hbrackets, hdelimiters⟩ := sum_of_splitConstraint hsplit
  rw [sum_changes bracketChange_eq start] at hbrackets
  rw [sum_changes delimiterChange_eq start] at hdelimiters
  rw [hnodes, countP_opensDelimiter, countP_closesDelimiter]
  refine ⟨⟨by omega, by omega⟩, by omega⟩

/-- A pair of delimiters of a fixed size around `\left` and `\right`, between which a
comma is passed over. -/
theorem enclosed_comma_iff_nested :
    Cut.ofSource .standard "f=\\bigl(\\left[a,b\\right)\\Biggr.,c" = .both ∧
      (Cut.bodyNodes .standard "f=\\bigl(\\left[a,b\\right)\\Biggr.,c").countP
        opensDelimiter ≤
        (Cut.bodyNodes .standard "f=\\bigl(\\left[a,b\\right)\\Biggr.,c").countP
          closesDelimiter := by
  have hcut : Cut.ofSource .standard "f=\\bigl(\\left[a,b\\right)\\Biggr.,c" =
      .both := by
    decide +kernel
  exact ⟨hcut, (enclosed_comma_iff .standard _ (.inl hcut)).2.mpr (by decide +kernel)⟩

/-- A delimiter of a fixed size does not keep a comma in the body: the equation is
cut in the middle of a pair. -/
theorem sized_delimiters_cut :
    EquationParts.ofSource .standard "a=\\bigl(b,c\\bigr),d" =
      ⟨"a", "\\bigl(b", "c\\bigr),d"⟩ ∧
      Cut.ofSource .standard "a=\\bigl(b,c\\bigr),d" = .both ∧
      (Cut.bodyNodes .standard "a=\\bigl(b,c\\bigr),d").countP opensDelimiter = 1 ∧
      (Cut.bodyNodes .standard "a=\\bigl(b,c\\bigr),d").countP closesDelimiter = 0 := by
  decide +kernel

end Formulary
