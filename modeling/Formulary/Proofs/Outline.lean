import Formulary.Proofs.Places
import Formulary.Variable.Extract

/-!
# What names depend on

The names in a row of nodes do not depend on everything that the nodes say.  Where a
node stands does not matter, nor what its blank space is made of, nor the marks
around an argument of a script mark or of a decorator, because such an argument is
written with marks of its own.  The *outline* of nodes is what is left without these.

* `nodesOutline` takes the outline of nodes.
* `nodesWritten_outline`, `classify_outline` and `nodesNames_outline` say that nodes
  with the same outline are written alike, are of the same kind and contribute the
  same names.
-/

namespace Formulary.Variable

open Formulary.Markup

/-- Whether the marks around the argument of a command are not kept when it is
written. -/
def dropsMarks (table : CommandTable) (name : String) : Bool :=
  isScriptName name || table.isDecorator name

mutual

/-- A node without its place, its layout and the marks that are not kept. -/
def nodeOutline (table : CommandTable) : Node → Node
  | .text content _ => .text content none
  | .blank _ _ => .blank [' '] none
  | .comment content _ => .comment content none
  | .group children _ => .group (nodesOutline table children) none
  | .command name args _ =>
      .command name (argumentsOutline table (dropsMarks table name) args) none

/-- The outlines of nodes in a row. -/
def nodesOutline (table : CommandTable) : List Node → List Node
  | [] => []
  | n :: ns => nodeOutline table n :: nodesOutline table ns

/-- The outlines of the arguments of a command, with or without their marks. -/
def argumentsOutline (table : CommandTable) (unmarked : Bool) :
    List Argument → List Argument
  | [] => []
  | .mk opening closing content :: rest =>
    .mk (if unmarked then "" else opening) (if unmarked then "" else closing)
        (nodesOutline table content) ::
      argumentsOutline table unmarked rest

end

variable {table : CommandTable}

/-! ### Kinds -/

mutual

theorem nodeIsBlank_outline :
    (n : Node) → nodeIsBlank (nodeOutline table n) = nodeIsBlank n
  | .text _ _ => rfl
  | .blank _ _ => rfl
  | .comment _ _ => rfl
  | .group children _ => by
      simp only [nodeOutline, nodeIsBlank, nodesAreBlank_outline children]
  | .command _ _ _ => rfl

/-- Whether nodes show nothing can be told from their outline. -/
theorem nodesAreBlank_outline : (ns : List Node) →
    nodesAreBlank (nodesOutline table ns) = nodesAreBlank ns
  | [] => rfl
  | n :: ns => by
      simp only [nodesOutline, nodesAreBlank, nodeIsBlank_outline n,
        nodesAreBlank_outline ns]

end

mutual

theorem nodeIsNumeric_outline :
    (n : Node) → nodeIsNumeric (nodeOutline table n) = nodeIsNumeric n
  | .text _ _ => rfl
  | .blank _ _ => rfl
  | .comment _ _ => rfl
  | .group children _ => by
      simp only [nodeOutline, nodeIsNumeric, nodesAreNumeric_outline children]
  | .command _ _ _ => rfl

/-- Whether nodes are a number can be told from their outline. -/
theorem nodesAreNumeric_outline : (ns : List Node) →
    nodesAreNumeric (nodesOutline table ns) = nodesAreNumeric ns
  | [] => rfl
  | n :: ns => by
      simp only [nodesOutline, nodesAreNumeric, nodeIsNumeric_outline n,
        nodesAreNumeric_outline ns]

end

/-- Whether a script follows can be told from the outline. -/
theorem startsWithScript_outline (mark : String) (ns : List Node) :
    startsWithScript mark (nodesOutline table ns) = startsWithScript mark ns := by
  match ns with
  | [] => rfl
  | .text _ _ :: _ => rfl
  | .blank _ _ :: _ => rfl
  | .comment _ _ :: _ => rfl
  | .group _ _ :: _ => rfl
  | .command _ [] _ :: _ => rfl
  | .command _ (.mk _ _ _ :: _) _ :: _ => rfl

mutual

theorem nodeIsAlphabetic_outline (raised : Bool) : (n : Node) →
    nodeIsAlphabetic table raised (nodeOutline table n) =
      nodeIsAlphabetic table raised n
  | .text _ _ => rfl
  | .blank _ _ => rfl
  | .comment _ _ => rfl
  | .group children _ => by
      simp only [nodeOutline, nodeIsAlphabetic, nodesAreAlphabetic_outline children]
  | .command name [] _ => rfl
  | .command name (arg :: args) _ => by
      have hargs := argumentsAreAlphabetic_outline (dropsMarks table name) (arg :: args)
      cases arg
      simp only [nodeOutline, nodeIsAlphabetic, hargs]
      rfl

/-- Whether nodes are alphabetic can be told from their outline. -/
theorem nodesAreAlphabetic_outline : (ns : List Node) →
    nodesAreAlphabetic table (nodesOutline table ns) = nodesAreAlphabetic table ns
  | [] => rfl
  | n :: ns => by
      simp only [nodesOutline, nodesAreAlphabetic, startsWithScript_outline,
        nodeIsAlphabetic_outline _ n, nodesAreAlphabetic_outline ns]

/-- The marks around arguments have no part in whether they are alphabetic. -/
theorem argumentsAreAlphabetic_outline (unmarked : Bool) : (args : List Argument) →
    argumentsAreAlphabetic table (argumentsOutline table unmarked args) =
      argumentsAreAlphabetic table args
  | [] => rfl
  | .mk _ _ content :: rest => by
      simp only [argumentsOutline, argumentsAreAlphabetic,
        nodesAreAlphabetic_outline content,
        argumentsAreAlphabetic_outline unmarked rest]

end

/-- Modifiers with the same outline are of the same kind. -/
theorem classify_outline (ns : List Node) :
    classify table (nodesOutline table ns) = classify table ns := by
  simp only [classify, nodesAreBlank_outline, nodesAreNumeric_outline,
    nodesAreAlphabetic_outline]

/-! ### Text -/

mutual

/-- A node is written like its outline, because marks that the outline lacks are not
written. -/
theorem nodeWritten_outline : (n : Node) →
    nodeWritten table (nodeOutline table n) = nodeWritten table n
  | .text _ _ => rfl
  | .blank _ _ => rfl
  | .comment _ _ => rfl
  | .group children _ => by
      simp only [nodeOutline, nodeWritten, nodesWritten_outline children]
  | .command _ [] _ => rfl
  | .command name (.mk _ _ content :: rest) _ => by
      have hrest := argumentsWritten_outline rest
      cases hscript : isScriptName name <;>
        cases hdecorator : table.isDecorator name <;>
        simp [nodeOutline, argumentsOutline, nodeWritten, dropsMarks,
          hscript, hdecorator, nodesWritten_outline content, hrest]

/-- Nodes with the same outline are written alike. -/
theorem nodesWritten_outline : (ns : List Node) →
    nodesWritten table (nodesOutline table ns) = nodesWritten table ns
  | [] => rfl
  | n :: ns => by
      simp only [nodesOutline, nodesWritten, nodeWritten_outline n,
        nodesWritten_outline ns]

/-- Arguments that keep their marks are written like their outline. -/
theorem argumentsWritten_outline : (args : List Argument) →
    argumentsWritten table (argumentsOutline table false args) =
      argumentsWritten table args
  | [] => rfl
  | .mk _ _ content :: rest => by
      simp only [argumentsOutline, argumentsWritten, nodesWritten_outline content,
        argumentsWritten_outline rest, Bool.false_eq_true, if_false]

end

/-! ### Names -/

mutual

theorem nodeNames_outline (cur : Option Candidate) : (n : Node) →
    nodeNames table cur (nodeOutline table n) = nodeNames table cur n
  | .text _ _ => rfl
  | .blank _ _ => rfl
  | .comment _ _ => rfl
  | .group children _ => by
      simp only [nodeOutline, nodeNames, nodesNames_outline none children]
  | .command _ [] _ => rfl
  | .command name (.mk _ _ content :: more) _ => by
      simp only [nodeOutline, argumentsOutline, nodeNames, Candidate.withSubscript,
        Candidate.withSuperscript, commandBase?, classify_outline, nodesWritten_outline,
        nodesNames_outline none content, argumentsNames_outline _ more]

/-- Nodes with the same outline contribute the same names. -/
theorem nodesNames_outline (cur : Option Candidate) : (ns : List Node) →
    nodesNames table cur (nodesOutline table ns) = nodesNames table cur ns
  | [] => rfl
  | n :: ns => by
      simp only [nodesOutline, nodesNames, nodeNames_outline cur n,
        nodesNames_outline _ ns]

/-- Arguments contribute the names of their outline, with or without marks. -/
theorem argumentsNames_outline (unmarked : Bool) : (args : List Argument) →
    argumentsNames table (argumentsOutline table unmarked args) =
      argumentsNames table args
  | [] => rfl
  | .mk _ _ content :: rest => by
      simp only [argumentsOutline, argumentsNames, nodesNames_outline none content,
        argumentsNames_outline unmarked rest]

end

/-! ### Places -/

mutual

theorem nodeOutline_shift (k : Nat) : (n : Node) →
    nodeOutline table (n.shift k) = nodeOutline table n
  | .text _ _ => rfl
  | .blank _ _ => rfl
  | .comment _ _ => rfl
  | .group children _ => by
      simp only [Node.shift, nodeOutline, nodesOutline_shift k children]
  | .command name args _ => by
      simp only [Node.shift, nodeOutline, argumentsOutline_shift k _ args]

/-- The outline does not depend on where nodes stand. -/
theorem nodesOutline_shift (k : Nat) : (ns : List Node) →
    nodesOutline table (nodesShift k ns) = nodesOutline table ns
  | [] => rfl
  | n :: ns => by
      simp only [nodesShift, nodesOutline, nodeOutline_shift k n,
        nodesOutline_shift k ns]

theorem argumentsOutline_shift (k : Nat) (unmarked : Bool) : (args : List Argument) →
    argumentsOutline table unmarked (argumentsShift k args) =
      argumentsOutline table unmarked args
  | [] => rfl
  | .mk _ _ content :: rest => by
      simp only [argumentsShift, argumentsOutline, nodesOutline_shift k content,
        argumentsOutline_shift k unmarked rest]

end

/-- Names do not depend on places. -/
theorem nodesNames_shift (k : Nat) (cur : Option Candidate) (ns : List Node) :
    nodesNames table cur (nodesShift k ns) = nodesNames table cur ns := by
  rw [← nodesNames_outline, nodesOutline_shift, nodesNames_outline]

end Formulary.Variable
