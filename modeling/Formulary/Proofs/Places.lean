import Formulary.Markup.Node
import Formulary.Markup.Warning
import Formulary.Proofs.Grammar

/-!
# Places of trees

Trees have no places of their own: nodes and warnings get them from where the trees
stand.

* `treesNodes_append` and `treesWarnings_append` say where the second of two parts
  stands.
* `treesNodes_add` and `treesWarnings_add` say that all places move along with the
  trees.
* `position_of_mem_treesWarnings` says that warnings are about places in their trees.
-/

namespace Formulary.Markup

/-! ### One after the other -/

/-- Lexemes in a row are placed one after the other. -/
theorem placeFrom_append (start : Nat) (ls ms : List Lexeme) :
    placeFrom start (ls ++ ms) =
      placeFrom start ls ++ placeFrom (start + (lexemesText ls).length) ms := by
  induction ls generalizing start with
  | nil => simp [placeFrom]
  | cons l ls ih => simp [placeFrom, ih, Nat.add_assoc]

theorem map_lexeme_placeFrom (start : Nat) (ls : List Lexeme) :
    (placeFrom start ls).map Token.lexeme = ls := by
  induction ls generalizing start with
  | nil => rfl
  | cons l ls ih => rw [placeFrom, List.map_cons, ih]

/-- The tokens of a source are its lexemes with their places. -/
theorem map_lexeme_tokenize (source : String) :
    (tokenize source).map Token.lexeme = lex source.toList :=
  map_lexeme_placeFrom 0 _

/-- The lexemes of a source are those of its tokens. -/
theorem mem_lex_iff {l : Lexeme} {source : String} :
    l ∈ lex source.toList ↔ ∃ t ∈ tokenize source, t.lexeme = l := by
  rw [← List.mem_map, map_lexeme_tokenize]

/-- Trees in a row have their nodes one after the other. -/
theorem treesNodes_append (start : Nat) (ts us : List Tree) :
    treesNodes start (ts ++ us) =
      treesNodes start ts ++ treesNodes (start + (treesChars ts).length) us := by
  induction ts generalizing start with
  | nil => rfl
  | cons t ts ih => simp [treesNodes, treesChars, ih, Tree.width, Nat.add_assoc]

/-- Trees in a row have their warnings one after the other. -/
theorem treesWarnings_append (start : Nat) (ts us : List Tree) :
    treesWarnings start (ts ++ us) =
      treesWarnings start ts ++ treesWarnings (start + (treesChars ts).length) us := by
  induction ts generalizing start with
  | nil => rfl
  | cons t ts ih => simp [treesWarnings, treesChars, ih, Tree.width, Nat.add_assoc]

/-- The node of a tree spans the characters of the tree. -/
theorem Tree.span_node (t : Tree) (start : Nat) :
    (t.node start).span = some ⟨start, start + t.width⟩ := by
  cases t with
  | gap lexeme => by_cases h : lexeme.kind = .comment <;> simp [Tree.node, h] <;> rfl
  | _ => rfl

/-! ### Moving to another place -/

/-- The range further right by `k`. -/
def Span.shift (k : Nat) (s : Span) : Span :=
  ⟨k + s.start, k + s.stop⟩

mutual

/-- The node further right by `k`. -/
def Node.shift (k : Nat) : Node → Node
  | .text content span => .text content (span.map (Span.shift k))
  | .blank content span => .blank content (span.map (Span.shift k))
  | .comment content span => .comment content (span.map (Span.shift k))
  | .group children span => .group (nodesShift k children) (span.map (Span.shift k))
  | .command name args span =>
      .command name (argumentsShift k args) (span.map (Span.shift k))

/-- Nodes in a row further right by `k`. -/
def nodesShift (k : Nat) : List Node → List Node
  | [] => []
  | n :: ns => n.shift k :: nodesShift k ns

/-- The arguments of a command further right by `k`. -/
def argumentsShift (k : Nat) : List Argument → List Argument
  | [] => []
  | .mk opening closing content :: rest =>
    .mk opening closing (nodesShift k content) :: argumentsShift k rest

end

theorem nodesShift_eq_map (k : Nat) (ns : List Node) :
    nodesShift k ns = ns.map (Node.shift k) := by
  induction ns with
  | nil => rfl
  | cons n ns ih => rw [nodesShift, ih, List.map_cons]

/-- The warning further right by `k`. -/
def Warning.shift (k : Nat) (w : Warning) : Warning :=
  { w with position := k + w.position }

section Places

variable (k : Nat)

mutual

/-- A tree that stands further on has the same node, further on. -/
theorem Tree.node_add :
    (t : Tree) → (start : Nat) → t.node (k + start) = (t.node start).shift k
  | .text chars, start => by simp [Tree.node, Node.shift, Span.shift, Nat.add_assoc]
  | .gap lexeme, start => by
      by_cases h : lexeme.kind = .comment <;>
        simp [Tree.node, h, Node.shift, Span.shift, Nat.add_assoc]
  | .stray, start => by simp [Tree.node, Node.shift, Span.shift, Nat.add_assoc]
  | .group body closed, start => by
      have hbody := treesNodes_add body (start + 1)
      simp only [Tree.node, Node.shift, Nat.add_assoc, hbody,
        Option.map_some, Span.shift]
  | .command head args missing, start => by
      have hargs := argsArguments_add args (start + head.text.length)
      simp only [Tree.node, Node.shift, Nat.add_assoc, hargs,
        Option.map_some, Span.shift]

/-- Trees that stand further right have the same nodes further right. -/
theorem treesNodes_add : (ts : List Tree) → (start : Nat) →
    treesNodes (k + start) ts = nodesShift k (treesNodes start ts)
  | [], _ => rfl
  | t :: ts, start => by
      rw [treesNodes, treesNodes, nodesShift, t.node_add start, Nat.add_assoc,
        treesNodes_add ts (start + t.width)]

/-- Arguments that stand further on are the same, further on. -/
theorem argsArguments_add : (args : List Arg) → (start : Nat) →
    argsArguments (k + start) args = argumentsShift k (argsArguments start args)
  | [], _ => rfl
  | .mk before enclosure body :: rest, start => by
      simp only [argsArguments, argumentsShift, Nat.add_assoc, treesNodes_add body,
        argsArguments_add rest]

end

theorem Enclosure.warnings_add (enclosure : Enclosure) (position : Nat) :
    enclosure.warnings (k + position) =
      (enclosure.warnings position).map (Warning.shift k) := by
  rcases enclosure with _ | (_ | _) | (_ | _) <;> rfl

mutual

/-- A tree that stands further on has the same warnings, further on. -/
theorem Tree.warnings_add : (t : Tree) → (start : Nat) →
    t.warnings (k + start) = (t.warnings start).map (Warning.shift k)
  | .text _, _ => rfl
  | .gap _, _ => rfl
  | .stray, _ => rfl
  | .group body closed, start => by
      rw [Tree.warnings, Tree.warnings, Nat.add_assoc,
        treesWarnings_add body, List.map_append]
      cases closed <;> rfl
  | .command head args missing, start => by
      rw [Tree.warnings, Tree.warnings, Nat.add_assoc,
        argsWarnings_add args, List.map_append]
      cases missing <;> rfl

/-- Trees that stand further right have the same warnings further right. -/
theorem treesWarnings_add : (ts : List Tree) → (start : Nat) →
    treesWarnings (k + start) ts = (treesWarnings start ts).map (Warning.shift k)
  | [], _ => rfl
  | t :: ts, start => by
      rw [treesWarnings, treesWarnings, t.warnings_add start, Nat.add_assoc,
        treesWarnings_add ts (start + t.width), List.map_append]

/-- Arguments that stand further on have the same warnings, further on. -/
theorem argsWarnings_add : (args : List Arg) → (start : Nat) →
    argsWarnings (k + start) args = (argsWarnings start args).map (Warning.shift k)
  | [], _ => rfl
  | .mk before enclosure body :: rest, start => by
      simp only [argsWarnings, Nat.add_assoc, treesWarnings_add body,
        Enclosure.warnings_add, argsWarnings_add rest, List.map_append]

end

end Places

/-! ### Warnings and the places they are about -/

/-- A warning about an argument is at its opening mark. -/
theorem Enclosure.position_of_mem_warnings {enclosure : Enclosure}
    {position : Nat} {w : Warning} (h : w ∈ enclosure.warnings position) :
    w.position = position ∧ enclosure.opening.length = 1 := by
  match enclosure, h with
  | .braces false, h => simp_all [Enclosure.warnings, Enclosure.opening]
  | .brackets false, h => simp_all [Enclosure.warnings, Enclosure.opening]

mutual

/-- The warnings of a tree are about places in it. -/
theorem Tree.position_of_mem_warnings : (t : Tree) → (start : Nat) →
    (∀ l ∈ t.lexemes, l.text ≠ []) → ∀ w ∈ t.warnings start,
      start ≤ w.position ∧ w.position < start + t.chars.length
  | .text chars, start, _, w, hw => by simp [Tree.warnings] at hw
  | .gap lexeme, start, _, w, hw => by simp [Tree.warnings] at hw
  | .stray, start, _, w, hw => by
      obtain rfl : w = ⟨.unmatchedBrace, start, ['}']⟩ := by
        simpa [Tree.warnings] using hw
      simp [Tree.chars]
  | .group body closed, start, hne, w, hw => by
      have hbody := position_of_mem_treesWarnings body (start + 1)
        (fun l hl => hne l (by simp [hl]))
      simp only [Tree.warnings, List.mem_append] at hw
      simp only [Tree.chars, List.length_cons, List.length_append]
      rcases hw with hw | hw
      · have := hbody w hw
        omega
      · cases closed with
        | true => simp at hw
        | false =>
            obtain rfl : w = ⟨.unterminatedGroup, start, ['{']⟩ := by simpa using hw
            exact ⟨Nat.le_refl start, by simp⟩
  | .command head args missing, start, hne, w, hw => by
      have hargs := position_of_mem_argsWarnings args (start + head.text.length)
        (fun l hl => hne l (by simp [hl]))
      have hhead : 0 < head.text.length :=
        List.length_pos_of_ne_nil (hne head (by simp))
      simp only [Tree.warnings, List.mem_append] at hw
      simp only [Tree.chars, List.length_append]
      rcases hw with hw | hw
      · have := hargs w hw
        omega
      · cases missing with
        | false => simp at hw
        | true =>
            obtain rfl : w = ⟨.missingArgument, start, head.text⟩ := by simpa using hw
            exact ⟨Nat.le_refl start, by simp only; omega⟩

/-- The warnings about trees are at places in the trees. -/
theorem position_of_mem_treesWarnings : (ts : List Tree) → (start : Nat) →
    (∀ l ∈ treesLexemes ts, l.text ≠ []) → ∀ w ∈ treesWarnings start ts,
      start ≤ w.position ∧ w.position < start + (treesChars ts).length
  | [], start, _, w, hw => by simp [treesWarnings] at hw
  | t :: ts, start, hne, w, hw => by
      have ht := t.position_of_mem_warnings start (fun l hl => hne l (by simp [hl]))
      have hts := position_of_mem_treesWarnings ts (start + t.width)
        (fun l hl => hne l (by simp [hl]))
      simp only [treesWarnings, List.mem_append] at hw
      simp only [treesChars, List.length_append]
      rcases hw with hw | hw
      · have := ht w hw
        omega
      · have := hts w hw
        rw [Tree.width] at this
        omega

/-- The warnings about arguments are at places in the arguments. -/
theorem position_of_mem_argsWarnings : (args : List Arg) → (start : Nat) →
    (∀ l ∈ argsLexemes args, l.text ≠ []) → ∀ w ∈ argsWarnings start args,
      start ≤ w.position ∧ w.position < start + (argsChars args).length
  | [], start, _, w, hw => by simp [argsWarnings] at hw
  | .mk before enclosure body :: rest, start, hne, w, hw => by
      have hbody := position_of_mem_treesWarnings body
        (start + (lexemesText before).length + enclosure.opening.length)
        (fun l hl => hne l (by simp [hl]))
      have hrest := position_of_mem_argsWarnings rest
        (start + (argsChars [.mk before enclosure body]).length)
        (fun l hl => hne l (by simp [hl]))
      simp only [argsWarnings, argsChars, List.append_nil,
        List.length_append, List.mem_append]
        at hw hrest ⊢
      rcases hw with (hw | hw) | hw
      · have := hbody w hw
        omega
      · have := Enclosure.position_of_mem_warnings hw
        omega
      · have := hrest w hw
        omega

end

end Formulary.Markup
