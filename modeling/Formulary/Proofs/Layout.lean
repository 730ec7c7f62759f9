import Formulary.Markup.Document
import Formulary.Command.Standard
import Formulary.Variable.Modifier
import Formulary.Variable.Written

/-!
# Layout in modifiers

Blank space and comments say nothing, and the kind of a modifier is the same without
them, with one exception. A script belongs to what stands right in front of it.  So a
constant is raised to a power only if the superscript is the very next node, and
taking out the layout between the two makes a power of what was a name.

* `nodesWithoutLayout` takes out the layout at every depth.
* `nodesHaveDetachedPower` tells whether layout stands between a constant and a
  superscript.
-/

namespace Formulary.Variable

open Formulary.Markup

/-! ### Taking out layout -/

/-- Whether a node is blank space or a comment. -/
def isLayout : Node → Bool
  | .blank _ _ | .comment _ _ => true
  | _ => false

mutual

/-- A node without the layout inside of it. -/
def nodeWithoutLayout : Node → Node
  | .text content span => .text content span
  | .blank content span => .blank content span
  | .comment content span => .comment content span
  | .group children span => .group (nodesWithoutLayout children) span
  | .command name args span => .command name (argumentsWithoutLayout args) span

/-- Nodes in a row without layout at any depth. -/
def nodesWithoutLayout : List Node → List Node
  | [] => []
  | n :: ns =>
    if isLayout n then nodesWithoutLayout ns else nodeWithoutLayout n ::
      nodesWithoutLayout ns

/-- The arguments of a command without layout in them. -/
def argumentsWithoutLayout : List Argument → List Argument
  | [] => []
  | .mk opening closing content :: rest =>
    .mk opening closing (nodesWithoutLayout content) :: argumentsWithoutLayout rest

end

/-! ### Powers behind layout -/

/-- Whether a node is a constant, whatever stands behind it. -/
def isConstantNode (table : CommandTable) : Node → Bool
  | .text content _ => table.isConstant (String.ofList content)
  | .command name _ _ => !isScriptName name && table.isConstant ("\\" ++ name)
  | _ => false

/-- Whether nodes start with layout and a superscript behind it. -/
def startsWithDetachedPower (ns : List Node) : Bool :=
  !startsWithScript "^" ns && startsWithScript "^" (ns.dropWhile isLayout)

mutual

/-- Whether layout stands between a constant and a superscript somewhere in a node
that can be part of a name. -/
def nodeHasDetachedPower (table : CommandTable) : Node → Bool
  | .text _ _ => false
  | .blank _ _ => false
  | .comment _ _ => false
  | .group children _ => nodesHaveDetachedPower table children
  | .command name args _ => isScriptName name && argumentsHaveDetachedPower table args

/-- Whether layout stands between a constant and a superscript among nodes in a row
or inside of them. -/
def nodesHaveDetachedPower (table : CommandTable) : List Node → Bool
  | [] => false
  | n :: ns =>
    (isConstantNode table n && startsWithDetachedPower ns) ||
      nodeHasDetachedPower table n ||
      nodesHaveDetachedPower table ns

/-- Whether layout stands between a constant and a superscript inside of
arguments. -/
def argumentsHaveDetachedPower (table : CommandTable) : List Argument → Bool
  | [] => false
  | .mk _ _ content :: rest =>
    nodesHaveDetachedPower table content || argumentsHaveDetachedPower table rest

end

/-! ### The three tests -/

variable {table : CommandTable}

theorem nodesWithoutLayout_of_layout {n : Node}
    (h : isLayout n = true) (ns : List Node) :
    nodesWithoutLayout (n :: ns) = nodesWithoutLayout ns := by
  rw [nodesWithoutLayout, if_pos h]

/-- What is no layout stays, without the layout in it. -/
theorem nodesWithoutLayout_cons {n : Node} (h : isLayout n = false) (ns : List Node) :
    nodesWithoutLayout (n :: ns) = nodeWithoutLayout n :: nodesWithoutLayout ns := by
  rw [nodesWithoutLayout, h, if_neg Bool.false_ne_true]

/-- Layout passes every test and is no constant. -/
theorem layout_passes (table : CommandTable) {n : Node} (h : isLayout n = true) :
    nodeIsBlank n = true ∧ nodeIsNumeric n = true ∧
      (∀ raised, nodeIsAlphabetic table raised n = true) ∧
        isConstantNode table n = false ∧
        nodeHasDetachedPower table n = false := by
  cases n with
  | blank content span =>
      simp [nodeIsBlank, nodeIsNumeric, nodeIsAlphabetic, isConstantNode,
        nodeHasDetachedPower]
  | comment content span =>
      simp [nodeIsBlank, nodeIsNumeric, nodeIsAlphabetic, isConstantNode,
        nodeHasDetachedPower]
  | text content span => cases h
  | group children span => cases h
  | command name args span => cases h

mutual

/-- Whether a node shows nothing is not a matter of layout, which shows nothing. -/
theorem nodeIsBlank_withoutLayout :
    (n : Node) → nodeIsBlank (nodeWithoutLayout n) = nodeIsBlank n
  | .text _ _ => rfl
  | .blank _ _ => rfl
  | .comment _ _ => rfl
  | .group children _ => by
      simp only [nodeWithoutLayout, nodeIsBlank, nodesAreBlank_withoutLayout children]
  | .command _ _ _ => rfl

/-- Nodes show nothing exactly if they do so without their layout. -/
theorem nodesAreBlank_withoutLayout : (ns : List Node) →
    nodesAreBlank (nodesWithoutLayout ns) = nodesAreBlank ns
  | [] => rfl
  | n :: ns => by
      have hns := nodesAreBlank_withoutLayout ns
      cases hn : isLayout n with
      | true =>
          obtain ⟨hblank, -⟩ := layout_passes .empty hn
          rw [nodesWithoutLayout_of_layout hn, nodesAreBlank, hns,
            hblank, Bool.true_and]
      | false =>
          rw [nodesWithoutLayout_cons hn, nodesAreBlank, nodesAreBlank, hns,
            nodeIsBlank_withoutLayout n]

end

mutual

/-- Whether a node is a number is not a matter of the layout in it. -/
theorem nodeIsNumeric_withoutLayout : (n : Node) →
    nodeIsNumeric (nodeWithoutLayout n) = nodeIsNumeric n
  | .text _ _ => rfl
  | .blank _ _ => rfl
  | .comment _ _ => rfl
  | .group children _ => by
      simp only [nodeWithoutLayout, nodeIsNumeric,
        nodesAreNumeric_withoutLayout children]
  | .command _ _ _ => rfl

/-- Nodes are a number exactly if they are one without their layout. -/
theorem nodesAreNumeric_withoutLayout : (ns : List Node) →
    nodesAreNumeric (nodesWithoutLayout ns) = nodesAreNumeric ns
  | [] => rfl
  | n :: ns => by
      have hns := nodesAreNumeric_withoutLayout ns
      cases hn : isLayout n with
      | true =>
          obtain ⟨-, hnumeric, -⟩ := layout_passes .empty hn
          rw [nodesWithoutLayout_of_layout hn, nodesAreNumeric, hns,
            hnumeric, Bool.true_and]
      | false =>
          rw [nodesWithoutLayout_cons hn, nodesAreNumeric, nodesAreNumeric, hns,
            nodeIsNumeric_withoutLayout n]

end

/-- Without layout, nodes start with a script if they do so behind their layout. -/
theorem startsWithScript_withoutLayout (mark : String) (ns : List Node) :
    startsWithScript mark (nodesWithoutLayout ns) =
      startsWithScript mark (ns.dropWhile isLayout) := by
  induction ns with
  | nil => rfl
  | cons n ns ih =>
      cases hn : isLayout n with
      | true => rw [nodesWithoutLayout_of_layout hn, ih, List.dropWhile_cons_of_pos hn]
      | false =>
          rw [nodesWithoutLayout_cons hn, List.dropWhile_cons_of_neg (by simp [hn])]
          match n with
          | .command name [] span | .command name (.mk _ _ _ :: _) span => rfl
          | .text _ _ | .blank _ _ | .comment _ _ | .group _ _ => rfl

/-- A superscript that comes first does so behind no layout. -/
theorem startsWithScript_dropWhile (ns : List Node) :
    startsWithScript "^" (ns.dropWhile isLayout) =
      (startsWithScript "^" ns || startsWithDetachedPower ns) := by
  unfold startsWithDetachedPower
  cases hfirst : startsWithScript "^" ns with
  | false => simp
  | true =>
      match ns with
      | .command _ (_ :: _) _ :: _ => simpa [isLayout] using hfirst

/-- A command is alphabetic if it is a script with alphabetic arguments, or a letter
that is not a raised constant. -/
theorem nodeIsAlphabetic_command (raised : Bool) (name : String) (args : List Argument)
    (span : Option Span) :
    nodeIsAlphabetic table raised (.command name args span) =
      if isScriptName name then !args.isEmpty && argumentsAreAlphabetic table args
      else table.isLetter name && !(table.isConstant ("\\" ++ name) && raised) := by
  rw [nodeIsAlphabetic, isScriptName]

/-- A constant is no part of a name if a power stands behind it, directly or
apart. -/
theorem nodeIsAlphabetic_or (raised apart : Bool) (n : Node) :
    nodeIsAlphabetic table (raised || apart) n =
      (nodeIsAlphabetic table raised n && !(isConstantNode table n && apart)) := by
  cases n with
  | text content span =>
      simp only [nodeIsAlphabetic, isConstantNode,
        Bool.and_or_distrib_left, Bool.not_or]
      ac_rfl
  | blank content span => simp [nodeIsAlphabetic, isConstantNode]
  | comment content span => simp [nodeIsAlphabetic, isConstantNode]
  | group children span => simp [nodeIsAlphabetic, isConstantNode]
  | command name args span =>
      simp only [nodeIsAlphabetic_command, isConstantNode]
      cases isScriptName name with
      | true => simp
      | false =>
          simp only [Bool.false_eq_true, if_false, Bool.not_false, Bool.true_and,
            Bool.and_or_distrib_left, Bool.not_or]
          ac_rfl

mutual

/-- Without layout a node stays alphabetic unless it holds a constant with a detached
power. -/
theorem nodeIsAlphabetic_withoutLayout (raised : Bool) : (n : Node) →
    nodeIsAlphabetic table raised (nodeWithoutLayout n) =
      (nodeIsAlphabetic table raised n && !nodeHasDetachedPower table n)
  | .text _ _ => by simp [nodeWithoutLayout, nodeHasDetachedPower]
  | .blank _ _ => rfl
  | .comment _ _ => rfl
  | .group children _ => by
      simp only [nodeWithoutLayout, nodeIsAlphabetic, nodeHasDetachedPower,
        nodesAreAlphabetic_withoutLayout children]
  | .command name args _ => by
      have hargs := argumentsAreAlphabetic_withoutLayout args
      have hempty : (argumentsWithoutLayout args).isEmpty = args.isEmpty := by
        rcases args with _ | ⟨⟨_, _, _⟩, _⟩ <;> rfl
      simp only [nodeWithoutLayout, nodeIsAlphabetic_command,
        nodeHasDetachedPower, hargs, hempty]
      cases isScriptName name with
      | true => simp [Bool.and_assoc]
      | false => simp

/-- Without layout nodes stay alphabetic unless a power was detached from a constant
only by layout. -/
theorem nodesAreAlphabetic_withoutLayout : (ns : List Node) →
    nodesAreAlphabetic table (nodesWithoutLayout ns) =
      (nodesAreAlphabetic table ns && !nodesHaveDetachedPower table ns)
  | [] => rfl
  | n :: ns => by
      have hns := nodesAreAlphabetic_withoutLayout ns
      cases hn : isLayout n with
      | true =>
          obtain ⟨-, -, halphabetic, hconstant, hinside⟩ := layout_passes table hn
          rw [nodesWithoutLayout_of_layout hn, hns, nodesAreAlphabetic,
            nodesHaveDetachedPower, halphabetic, hconstant, hinside, Bool.true_and,
            Bool.false_and, Bool.false_or, Bool.false_or]
      | false =>
          rw [nodesWithoutLayout_cons hn, nodesAreAlphabetic, nodesAreAlphabetic,
            nodesHaveDetachedPower, nodeIsAlphabetic_withoutLayout _ n, hns,
            startsWithScript_withoutLayout, startsWithScript_dropWhile,
            nodeIsAlphabetic_or]
          simp only [Bool.not_or]
          ac_rfl

theorem argumentsAreAlphabetic_withoutLayout : (args : List Argument) →
    argumentsAreAlphabetic table (argumentsWithoutLayout args) =
      (argumentsAreAlphabetic table args && !argumentsHaveDetachedPower table args)
  | [] => rfl
  | .mk _ _ content :: rest => by
      simp only [argumentsWithoutLayout, argumentsAreAlphabetic,
        argumentsHaveDetachedPower, nodesAreAlphabetic_withoutLayout content,
        argumentsAreAlphabetic_withoutLayout rest, Bool.not_or]
      ac_rfl

end

/-- **Layout does not matter to the kind of a modifier**, but for one thing: if the
content is a name in which layout stands between a constant and a superscript, then
without the layout it is a name no longer, because the constant is raised to a
power. -/
theorem classify_withoutLayout (table : CommandTable) (nodes : List Node) :
    classify table (nodesWithoutLayout nodes) =
      if classify table nodes = .alphabetic ∧
        nodesHaveDetachedPower table nodes = true then .mixed
      else classify table nodes := by
  unfold classify
  rw [nodesAreBlank_withoutLayout, nodesAreNumeric_withoutLayout,
    nodesAreAlphabetic_withoutLayout]
  by_cases hblank : nodesAreBlank nodes = true
  · simp [hblank]
  by_cases hnumeric : nodesAreNumeric nodes = true
  · simp [hblank, hnumeric]
  by_cases halphabetic : nodesAreAlphabetic table nodes = true
  · cases hpower : nodesHaveDetachedPower table nodes <;>
      simp [hblank, hnumeric, halphabetic]
  · simp [hblank, hnumeric, halphabetic]

/-- A blank between the constant and its superscript. -/
theorem detached_power_is_name :
    let nodes := (parse .standard "e ^\x7by\x7d").nodes
    classify .standard nodes = .alphabetic ∧
      classify .standard (nodesWithoutLayout nodes) = .mixed := by
  decide +kernel

end Formulary.Variable
