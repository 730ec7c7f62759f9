import Formulary.Proofs.SymbolsInNames
import Formulary.Proofs.WrittenBraces

/-!
# How names are spelled

A name is a base, perhaps a subscript and perhaps a superscript.  The base is a
letter, a command that names one, or a decorator with its argument.  So besides
letters a name is made of arguments of script marks and decorators, written in the
form that names use.  These are its *parts*.

* `Spelling` is a name by its parts, and `Spelling.text` is the name.
* `nodesParts` lists what is written for the arguments of the commands in nodes, and
  `nodesNames_made` says that the names in the nodes are spelled with parts from this
  list.
* `treesParts_shut` says that parts have matching braces, and `treesRaises_le` that a
  part has fewer superscripts than the source that it comes from has if it is one
  itself.
-/

namespace Formulary.Variable

open Formulary.Markup

/-! ### Parts -/

/-- An argument of a script mark or of a decorator as it stands in a name. -/
structure Part where
  /-- The script mark, or the name of the decorator. -/
  head : String
  content : List Char
  deriving DecidableEq, Repr

/-- The text of a part: behind a script mark a single digit stays bare, all else is
braced. -/
def Part.written (p : Part) : List Char :=
  if isScriptName p.head then p.head.toList ++ formatModifier p.content
  else '\\' :: (p.head.toList ++ braced p.content)

mutual

/-- The arguments of the commands in a node as they would stand in a name. -/
def nodeParts (table : CommandTable) : Node → List Part
  | .text _ _ => []
  | .blank _ _ => []
  | .comment _ _ => []
  | .group children _ => nodesParts table children
  | .command name args _ => argumentsParts table name args

/-- The arguments of the commands in nodes. -/
def nodesParts (table : CommandTable) : List Node → List Part
  | [] => []
  | n :: ns => nodeParts table n ++ nodesParts table ns

/-- The arguments of a command, and those of the commands in them. -/
def argumentsParts (table : CommandTable) (name : String) : List Argument → List Part
  | [] => []
  | .mk _ _ content :: rest =>
    ⟨name, nodesWritten table content⟩ ::
      (nodesParts table content ++ argumentsParts table name rest)

end

/-! ### Spellings -/

/-- What a name starts with. -/
inductive Base where
  | letter (c : Char)
  /-- A command that names a letter. -/
  | word (name : String)
  | decorated (part : Part)
  deriving DecidableEq, Repr

namespace Base

/-- The base as it stands in a name. -/
def text : Base → List Char
  | .letter c => [c]
  | .word name => '\\' :: name.toList
  | .decorated part => part.written

/-- The argument that is part of a base. -/
def parts : Base → List Part
  | .letter _ => []
  | .word _ => []
  | .decorated part => [part]

/-- Whether a name can start like this.  A command that names a letter decorates
nothing. -/
def starts (table : CommandTable) : Base → Bool
  | .letter c => c.isAlpha
  | .word name => table.isLetter name
  | .decorated part => table.isDecorator part.head && !table.isLetter part.head

end Base

/-- A name by what it is made of. -/
structure Spelling where
  base : Base
  subscript? : Option (List Char)
  superscript? : Option (List Char)
  deriving DecidableEq, Repr

namespace Spelling

/-- The scripts behind the base. -/
def scripts (sp : Spelling) : List Part :=
  (sp.subscript?.map (Part.mk "_")).toList ++ (sp.superscript?.map (Part.mk "^")).toList

/-- The arguments that are folded into the name. -/
def parts (sp : Spelling) : List Part :=
  sp.base.parts ++ sp.scripts

/-- The name. -/
def text (sp : Spelling) : List Char :=
  sp.base.text ++ sp.scripts.flatMap Part.written

/-- A spelling whose parts are among those given.  A constant has a superscript only
behind a subscript. -/
structure Made (table : CommandTable) (parts : List Part) (sp : Spelling) : Prop where
  base : sp.base.starts table = true
  raised : sp.superscript?.isSome = true →
    sp.subscript?.isSome = true ∨ table.isConstant (String.ofList sp.base.text) = false
  parts : sp.parts ⊆ parts

instance (table : CommandTable) (parts : List Part) (sp : Spelling) :
    Decidable (sp.Made table parts) :=
  decidable_of_iff
    (sp.base.starts table = true ∧
      (sp.superscript?.isSome = true → sp.subscript?.isSome = true ∨
        table.isConstant (String.ofList sp.base.text) = false) ∧
      sp.parts ⊆ parts)
    ⟨fun h => ⟨h.1, h.2.1, h.2.2⟩, fun h => ⟨h.base, h.raised, h.parts⟩⟩

end Spelling

/-- The arguments of the commands in a source as they would stand in a name. -/
def partsOfSource (table : CommandTable) (source : String) : List Part :=
  nodesParts table (parse table source).nodes

variable {table : CommandTable} {ps : List Part}

/-! ### Candidates -/

/-- The candidate that a spelling without a superscript is. -/
def Spelling.candidate (sp : Spelling) (takes : Bool) : Candidate :=
  ⟨sp.base.text, sp.text, sp.subscript?.isSome, takes⟩

/-- A candidate that is spelled with the parts given. -/
def Candidate.Made (table : CommandTable) (ps : List Part) (c : Candidate) : Prop :=
  ∃ sp takes, sp.superscript? = none ∧ Spelling.Made table ps sp ∧
    c = sp.candidate takes

/-- A name that is spelled with the parts given. -/
def NameMade (table : CommandTable) (ps : List Part) (name : List Char) : Prop :=
  ∃ sp : Spelling, sp.Made table ps ∧ sp.text = name

/-- A candidate that nothing continues is a name. -/
theorem Candidate.Made.nameMade {c : Candidate} (h : c.Made table ps) :
    NameMade table ps c.identity := by
  obtain ⟨sp, takes, -, hsp, rfl⟩ := h
  exact ⟨sp, hsp, rfl⟩

theorem Candidate.made_ofBase (base : Base) (hbase : base.starts table = true)
    (hparts : base.parts ⊆ ps) :
    (Candidate.ofBase base.text).Made table ps := by
  refine ⟨⟨base, none, none⟩, true, rfl, ⟨hbase, by simp, ?_⟩, ?_⟩
  · simpa [Spelling.parts, Spelling.scripts] using hparts
  · simp [Spelling.candidate, Candidate.ofBase, Spelling.text, Spelling.scripts]

/-- A subscript that shows something becomes part of the name. -/
theorem Candidate.Made.withSubscript {c : Candidate} (h : c.Made table ps)
    {content : List Node} (hpart : ⟨"_", nodesWritten table content⟩ ∈ ps) :
    (c.withSubscript table content).Made table ps := by
  obtain ⟨sp, takes, hsup, hsp, rfl⟩ := h
  unfold Candidate.withSubscript
  split_ifs
  · exact ⟨sp, false, hsup, hsp, rfl⟩
  · refine ⟨⟨sp.base, some (nodesWritten table content), none⟩, false, rfl,
      ⟨hsp.base, by simp, ?_⟩, ?_⟩
    · have hbase := (List.append_subset.mp hsp.parts).1
      simpa [Spelling.parts, Spelling.scripts] using ⟨hbase, hpart⟩
    · simp [Spelling.candidate, Spelling.text, Spelling.scripts,
        Part.written, isScriptName]

/-- A superscript becomes part of the name or has names of its own. -/
theorem Candidate.Made.withSuperscript {c : Candidate} (h : c.Made table ps)
    {content : List Node} (hpart : ⟨"^", nodesWritten table content⟩ ∈ ps)
    {nested : List (List Char)} (hnested : ∀ name ∈ nested, NameMade table ps name) :
    ∀ name ∈ c.withSuperscript table content nested, NameMade table ps name := by
  have hsingle : ∀ name ∈ [c.identity], NameMade table ps name := by
    simpa using h.nameMade
  have hboth : ∀ name ∈ c.identity :: nested, NameMade table ps name :=
    List.forall_mem_cons.mpr ⟨h.nameMade, hnested⟩
  unfold Candidate.withSuperscript
  split
  · exact hsingle
  · exact hsingle
  · split_ifs with hbase
    · obtain ⟨sp, takes, hsup, hsp, rfl⟩ := h
      intro name hname
      obtain rfl := List.mem_singleton.mp hname
      refine ⟨⟨sp.base, sp.subscript?, some (nodesWritten table content)⟩,
        ⟨hsp.base, fun _ => by simpa [Spelling.candidate] using hbase, ?_⟩, ?_⟩
      · have hfront := hsp.parts
        simp only [Spelling.parts, Spelling.scripts, hsup,
          Option.map_none, Option.toList_none, List.append_nil] at hfront
        simpa [Spelling.parts, Spelling.scripts, ← List.append_assoc] using
          And.intro (List.append_subset.mp hfront) hpart
      · simp [Spelling.candidate, Spelling.text, Spelling.scripts, hsup, Part.written,
          isScriptName]
    · exact hboth
  · exact hboth

/-! ### The walk over the nodes -/

/-- A decorator is no script mark. -/
theorem isScriptName_eq_false_of_isDecorator (horderly : table.Orderly) {name : String}
    (h : table.isDecorator name = true) : isScriptName name = false := by
  by_contra hscript
  have halpha := horderly.names name (by simp [CommandTable.startsName, h])
  simp only [Bool.not_eq_false, isScriptName, Bool.or_eq_true,
    decide_eq_true_eq] at hscript
  rcases hscript with rfl | rfl <;> simp at halpha

/-- All the names that a walk completes are spelled with the parts given, and so is
the candidate that it leaves. -/
structure WalkMade (table : CommandTable) (ps : List Part)
    (r : List (List Char) × Option Candidate) : Prop where
  names : ∀ name ∈ r.1, NameMade table ps name
  candidate : ∀ c ∈ r.2, c.Made table ps

theorem nameMade_flush {cur : Option Candidate} (h : ∀ c ∈ cur, c.Made table ps) :
    ∀ name ∈ flush cur, NameMade table ps name := by
  cases cur with
  | none => simp [flush]
  | some c => simpa [flush] using (h c rfl).nameMade

/-- What is not continued is a name, and what stands behind it has names of its
own. -/
theorem WalkMade.of_flush {cur : Option Candidate} (h : ∀ c ∈ cur, c.Made table ps)
    (names : List (List Char)) (hnames : ∀ name ∈ names, NameMade table ps name) :
    WalkMade table ps (flush cur ++ names, none) where
  names := List.forall_mem_append.mpr ⟨nameMade_flush h, hnames⟩
  candidate := by simp

theorem made_letter {c : Char} (hc : c.isAlpha = true) :
    (Candidate.ofBase [c]).Made table ps :=
  Candidate.made_ofBase (.letter c) hc (List.nil_subset ps)

/-- Text in a row is letters that are names, each on its own, and nothing else. -/
theorem walkMade_text {cur : Option Candidate} (h : ∀ c ∈ cur, c.Made table ps)
    (chars : List Char) (span : Option Span) :
    WalkMade table ps (nodeNames table cur (.text chars span)) := by
  match chars with
  | [] => simpa [nodeNames] using WalkMade.of_flush h [] (by simp)
  | [c] =>
      refine ⟨by simpa only [nodeNames] using nameMade_flush h, fun e he => ?_⟩
      obtain ⟨hc, rfl⟩ : c.isAlpha = true ∧ Candidate.ofBase [c] = e := by
        simpa [nodeNames] using he
      exact made_letter hc
  | c :: e :: cs =>
      rw [nodeNames]
      · refine WalkMade.of_flush h _ fun name hname => ?_
        obtain ⟨a, ha, rfl⟩ := List.mem_map.mp hname
        exact (made_letter (List.mem_filter.mp ha).2).nameMade
      · simp

/-- The base that a command starts is a letter or decorates the first argument. -/
theorem made_commandBase? {name : String} {content : List Node} {base : List Char}
    (h : commandBase? table name content = some base)
    (hpart : ⟨name, nodesWritten table content⟩ ∈ ps)
    (hnames : table.isDecorator name = true → isScriptName name = false) :
    (Candidate.ofBase base).Made table ps := by
  unfold commandBase? at h
  split_ifs at h with hletter hdecorator
  · obtain rfl := Option.some.inj h
    exact Candidate.made_ofBase (.word name) hletter (List.nil_subset ps)
  · obtain rfl := Option.some.inj h
    have hmade : (Candidate.ofBase
        (Base.decorated ⟨name, nodesWritten table content⟩).text).Made
        table ps :=
      Candidate.made_ofBase _ (by simp [Base.starts, hdecorator, hletter])
        (by simpa [Base.parts] using hpart)
    simpa [Base.text, Part.written, hnames hdecorator] using hmade

mutual

/-- One step of the walk. -/
theorem nodeNames_made (horderly : table.Orderly) :
    (n : Node) → (cur : Option Candidate) → nodeParts table n ⊆ ps →
      (∀ c ∈ cur, c.Made table ps) →
      WalkMade table ps (nodeNames table cur n)
  | .text chars span, _, _, hcur => walkMade_text hcur chars span
  | .blank _ _, _, _, hcur => by
      simpa [nodeNames] using WalkMade.of_flush hcur [] (by simp)
  | .comment _ _, _, _, hcur => by
      simpa [nodeNames] using WalkMade.of_flush hcur [] (by simp)
  | .group children _, _, hparts, hcur => by
      rw [nodeParts] at hparts
      rw [nodeNames]
      exact .of_flush hcur _ (nodesNames_made horderly children none hparts (by simp))
  | .command name [] _, _, _, hcur => by
      refine ⟨by simpa only [nodeNames] using nameMade_flush hcur, fun c hc => ?_⟩
      obtain ⟨hletter, rfl⟩ :
          table.isLetter name = true ∧ Candidate.ofBase ('\\' :: name.toList) = c := by
        simpa [nodeNames] using hc
      exact Candidate.made_ofBase (.word name) hletter (List.nil_subset ps)
  | .command name (.mk opening closing content :: more) span, cur, hparts, hcur => by
      rw [nodeParts, argumentsParts, List.cons_subset, List.append_subset] at hparts
      obtain ⟨hpart, hcontent, hmore⟩ := hparts
      have hnested := nodesNames_made horderly content none hcontent (by simp)
      rcases nodeNames_command_cases table cur name opening closing content more span with
        ⟨c, rfl, rfl, -, hr⟩ | ⟨c, rfl, rfl, hr⟩ | ⟨base, hbase, hr⟩ | ⟨-, hr⟩
      · rw [hr]
        refine ⟨by simp, fun e he => ?_⟩
        obtain rfl := Option.mem_some_iff.mp he
        exact (hcur c rfl).withSubscript hpart
      · rw [hr]
        exact ⟨(hcur c rfl).withSuperscript hpart hnested, by simp⟩
      · rw [hr]
        refine ⟨nameMade_flush hcur, fun e he => ?_⟩
        obtain rfl := Option.mem_some_iff.mp he
        exact made_commandBase? hbase hpart
          (isScriptName_eq_false_of_isDecorator horderly)
      · rw [hr]
        exact .of_flush hcur _ (List.forall_mem_append.mpr
          ⟨hnested, argumentsNames_made horderly more name hmore⟩)

/-- **Names are spelled with the arguments of the nodes** that they come from. -/
theorem nodesNames_made (horderly : table.Orderly) : (ns : List Node) →
    (cur : Option Candidate) → nodesParts table ns ⊆ ps → (∀ c ∈ cur, c.Made table ps) →
      ∀ name ∈ nodesNames table cur ns, NameMade table ps name
  | [], _, _, hcur => by
      rw [nodesNames]
      exact nameMade_flush hcur
  | n :: ns, cur, hparts, hcur => by
      rw [nodesParts, List.append_subset] at hparts
      have hfirst := nodeNames_made horderly n cur hparts.1 hcur
      rw [nodesNames]
      exact List.forall_mem_append.mpr
        ⟨hfirst.names, nodesNames_made horderly ns _ hparts.2 hfirst.candidate⟩

/-- The names in arguments are spelled with the parts in them. -/
theorem argumentsNames_made (horderly : table.Orderly) : (args : List Argument) →
    (name : String) → argumentsParts table name args ⊆ ps →
      ∀ v ∈ argumentsNames table args, NameMade table ps v
  | [], _, _ => by simp [argumentsNames]
  | .mk _ _ content :: rest, name, hparts => by
      rw [argumentsParts, List.cons_subset, List.append_subset] at hparts
      rw [argumentsNames]
      exact List.forall_mem_append.mpr
        ⟨nodesNames_made horderly content none hparts.2.1 (by simp),
          argumentsNames_made horderly rest name hparts.2.2⟩

end

/-! ### The parts of a source -/

/-- The content of a part is balanced, unless there is a lone backslash among the
lexemes that it comes from. -/
def Part.Shut (ls : List Lexeme) (p : Part) : Prop :=
  Balanced p.content ∨ (lone ∈ ls ∧ Balanced (p.content ++ ['}']))

/-- More lexemes may be named as the origin of a part. -/
theorem Part.Shut.mono {ls ms : List Lexeme} {p : Part}
    (h : p.Shut ls) (hsub : ls ⊆ ms) :
    p.Shut ms :=
  h.imp_right fun hlone => ⟨hsub hlone.1, hlone.2⟩

/-- What is written for lexemes may be the content of a part. -/
theorem Shuts.part {ls : List Lexeme} {w : List Char} (h : Shuts ls w) (name : String) :
    Part.Shut ls ⟨name, w⟩ := by
  by_cases hlone : lone ∈ ls
  · exact .inr ⟨hlone, h.balanced_append hlone⟩
  · exact .inl (h.balanced hlone)

mutual

/-- The parts of a tree come from its lexemes. -/
theorem Tree.parts_shut (horderly : table.Orderly) : (t : Tree) → (start : Nat) →
    (scope : Scope) → (mode : Mode) → (rest : List Lexeme) →
    t.Reads table scope mode rest → IsCut (t.lexemes ++ rest) →
      ∀ p ∈ nodeParts table (t.node start), p.Shut t.lexemes
  | .text _, _, _, _, _, _, _ => by simp [Markup.Tree.node, nodeParts]
  | .gap _, _, _, _, _, _, _ => by
      rw [Markup.Tree.node]
      split_ifs <;> simp [nodeParts]
  | .stray, _, _, _, _, _, _ => by simp [Markup.Tree.node, nodeParts]
  | .group body closed, start, _, mode, rest, hreads, hcut => by
      simp only [Tree.Reads] at hreads
      have hinside : IsCut (treesLexemes body ++
          (charLexemes (Enclosure.braces closed).closing ++ rest)) := by
        rw [← List.append_assoc]
        exact (isCut_cons.mp hcut).2.2
      rw [Markup.Tree.node, nodeParts]
      intro p hp
      exact (treesParts_shut horderly body _ .braces mode _ hreads.1 hinside p hp).mono
        (by simp)
  | .command head args missing, start, _, mode, rest, hreads, hcut => by
      simp only [Tree.Reads] at hreads
      rw [Markup.Tree.node, nodeParts]
      rcases hreads with ⟨-, rfl, -⟩ | ⟨-, hargs⟩
      · simp [argsArguments, argumentsParts]
      · intro p hp
        exact (argsParts_shut horderly args _ head.name _ _ rest missing hargs
          (isCut_cons.mp hcut).2.2 p hp).mono (by simp)

/-- **The parts of a source have matching braces**, a lone backslash at its end
excepted. -/
theorem treesParts_shut (horderly : table.Orderly) : (ts : List Tree) → (start : Nat) →
    (scope : Scope) → (mode : Mode) → (rest : List Lexeme) →
    treesRead table scope mode rest ts → IsCut (treesLexemes ts ++ rest) →
      ∀ p ∈ nodesParts table (treesNodes start ts), p.Shut (treesLexemes ts)
  | [], _, _, _, _, _, _ => by simp [treesNodes, nodesParts]
  | t :: ts, start, scope, mode, rest, hreads, hcut => by
      simp only [treesRead] at hreads
      rw [treesLexemes, List.append_assoc] at hcut
      rw [treesNodes, nodesParts]
      intro p hp
      rcases List.mem_append.mp hp with hp | hp
      · exact (Tree.parts_shut horderly t start scope mode _ hreads.1 hcut p hp).mono
          (by simp)
      · exact (treesParts_shut horderly ts _ scope mode rest hreads.2
          hcut.right_of_append p
          hp).mono (by simp)

/-- The parts of arguments, and the arguments as parts, have matching braces. -/
theorem argsParts_shut (horderly : table.Orderly) : (args : List Arg) → (start : Nat) →
    (name : String) → (mode : Mode) → (slots : List Slot) → (rest : List Lexeme) →
    (missing : Bool) → argsRead table mode slots rest missing args →
    IsCut (argsLexemes args ++ rest) →
      ∀ p ∈ argumentsParts table name (argsArguments start args),
        p.Shut (argsLexemes args)
  | [], _, _, _, _, _, _, _, _ => by simp [argsArguments, argumentsParts]
  | .mk before enclosure body :: args, start, name, mode, slots, rest,
      missing, hreads, hcut => by
      obtain ⟨-, -, hcontent, left, hargs⟩ := argsRead_cons hreads
      have hshut := (argsShut_of_read horderly _ mode slots rest
        missing hreads hcut).2.1
      simp only [argsLexemes, List.append_assoc] at hcut
      have hinside := hcut.right_of_append.right_of_append
      rw [argsArguments, argumentsParts]
      intro p hp
      rcases List.mem_cons.mp hp with rfl | hp
      · exact ((hshut _).part name).mono fun l hl => by simp [hl]
      rcases List.mem_append.mp hp with hp | hp
      · suffices hbody :
            p.Shut (treesLexemes body) from hbody.mono fun l hl => by simp [hl]
        rcases hcontent with ⟨scope, -, hread⟩ | ⟨slots', left', hread⟩
        · exact treesParts_shut horderly body _ scope mode _ hread hinside p hp
        · exact bareParts_shut horderly body _ mode slots' left' _ hread hinside p hp
      · exact (argsParts_shut horderly args _ name mode left rest missing hargs
          hinside.right_of_append.right_of_append p hp).mono fun l hl => by simp [hl]

theorem bareParts_shut (horderly : table.Orderly) : (body : List Tree) → (start : Nat) →
    (mode : Mode) → (slots left : List Slot) → (rest : List Lexeme) →
    bareReads table mode slots left rest body → IsCut (treesLexemes body ++ rest) →
      ∀ p ∈ nodesParts table (treesNodes start body), p.Shut (treesLexemes body)
  | [], _, _, _, _, _, hreads, _ => by simp only [bareReads] at hreads
  | _ :: _ :: _, _, _, _, _, _, hreads, _ => by simp only [bareReads] at hreads
  | [t], start, mode, _, _, rest, hreads, hcut => by
      simp only [bareReads] at hreads
      simp only [treesLexemes, List.append_nil] at hcut
      simp only [treesNodes, nodesParts, treesLexemes, List.append_nil]
      obtain ⟨l, -, hcases⟩ := hreads
      have hatom (l : Lexeme) :
          ∀ p ∈ nodeParts table ((atom l).node start), p.Shut (atom l).lexemes := by
        unfold atom
        split_ifs <;>
          simp [Tree.plain, Markup.Tree.node, nodeParts, argsArguments, argumentsParts]
      obtain ⟨-, -, rfl⟩ | ⟨-, ⟨-, ht⟩ | ⟨-, rfl⟩⟩ := hcases
      · exact hatom l
      · exact Tree.parts_shut horderly t start .top mode rest ht hcut
      · exact hatom l

end

/-! ### Superscripts in a source -/

/-- The braces around a text are no superscripts. -/
theorem count_braced (w : List Char) : (braced w).count '^' = w.count '^' := by
  simp [braced]

theorem count_formatModifier (w : List Char) :
    (formatModifier w).count '^' = w.count '^' := by
  unfold formatModifier
  split
  · split_ifs
    · rfl
    · exact count_braced _
  · exact count_braced _

theorem count_marks (enclosure : Enclosure) :
    enclosure.marks.1.toList.count '^' = 0 ∧
      enclosure.marks.2.toList.count '^' = 0 := by
  rcases enclosure with _ | (_ | _) | (_ | _) <;> decide

/-- The name of a command is part of its text. -/
theorem sublist_name (l : Lexeme) : l.name.toList.Sublist l.text := by
  rw [Lexeme.name, String.toList_ofList]
  split_ifs
  · exact List.drop_sublist 1 l.text
  · exact List.Sublist.refl _

/-- A command has the superscripts of its arguments, and it may be one itself. -/
theorem count_command_le (name : String) (args : List Argument) (span : Option Span) :
    (nodeWritten table (.command name args span)).count '^' ≤
      name.toList.count '^' + (argumentsWritten table args).count '^' := by
  cases args with
  | nil =>
      rw [nodeWritten]
      split_ifs <;> simp [argumentsWritten]
  | cons arg rest =>
      obtain ⟨opening, closing, content⟩ := arg
      rw [nodeWritten]
      split_ifs <;> simp [argumentsWritten, count_formatModifier, count_braced] <;>
        omega

/-- The arguments behind the first come after its content. -/
theorem count_argsChars (before : List Lexeme)
    (enclosure : Enclosure) (body : List Tree) (args : List Arg) :
    (treesChars body).count '^' + (argsChars args).count '^' ≤
      (argsChars (.mk before enclosure body :: args)).count '^' := by
  simp only [argsChars, List.count_append]
  omega

mutual

/-- Writing makes no superscripts. -/
theorem Tree.count_written_le : (t : Tree) → (start : Nat) →
    (nodeWritten table (t.node start)).count '^' ≤ t.chars.count '^'
  | .text _, _ => Nat.le_refl _
  | .gap _, _ => by
      rw [Markup.Tree.node]
      split_ifs <;> simp [nodeWritten]
  | .stray, _ => by simp [Markup.Tree.node, nodeWritten]
  | .group body closed, start => by
      have hbody := treesCount_written_le body (start + 1)
      simp only [Markup.Tree.node, nodeWritten, Tree.chars,
        List.count_cons, List.count_append]
      omega
  | .command head args _, start => by
      have hargs := argsCount_written_le args (start + head.text.length)
      have hname := (sublist_name head).count_le '^'
      refine (count_command_le _ _ _).trans ?_
      rw [Tree.chars, List.count_append]
      omega

/-- Nor does writing trees in a row. -/
theorem treesCount_written_le : (ts : List Tree) → (start : Nat) →
    (nodesWritten table (treesNodes start ts)).count '^' ≤ (treesChars ts).count '^'
  | [], _ => Nat.le_refl _
  | t :: ts, start => by
      have ht := Tree.count_written_le t start
      have hts := treesCount_written_le ts (start + t.width)
      rw [treesNodes, nodesWritten, treesChars, List.count_append, List.count_append]
      omega

theorem argsCount_written_le : (args : List Arg) → (start : Nat) →
    (argumentsWritten table (argsArguments start args)).count '^' ≤
      (argsChars args).count '^'
  | [], _ => Nat.le_refl _
  | .mk before enclosure body :: args, start => by
      obtain ⟨hopen, hclose⟩ := count_marks enclosure
      have hsplit := count_argsChars before enclosure body args
      rw [argsArguments, argumentsWritten]
      simp only [List.count_append, hopen, hclose]
      have hbody := treesCount_written_le body
        (start + (lexemesText before).length + enclosure.opening.length)
      have hargs := argsCount_written_le args
        (start + (argsChars [.mk before enclosure body]).length)
      omega

end

/-- The superscripts in a part, and the part itself if it is one. -/
def Part.raises (p : Part) : Nat :=
  p.content.count '^' + if p.head = "^" then 1 else 0

mutual

/-- A part of a tree has no more superscripts than the tree. -/
theorem Tree.raises_le : (t : Tree) → (start : Nat) →
    ∀ p ∈ nodeParts table (t.node start), p.raises ≤ t.chars.count '^'
  | .text _, _ => by simp [Markup.Tree.node, nodeParts]
  | .gap _, _ => by
      rw [Markup.Tree.node]
      split_ifs <;> simp [nodeParts]
  | .stray, _ => by simp [Markup.Tree.node, nodeParts]
  | .group body closed, start => by
      rw [Markup.Tree.node, nodeParts]
      intro p hp
      have hbody := treesRaises_le body (start + 1) p hp
      simp only [Tree.chars, List.count_cons, List.count_append]
      omega
  | .command head args _, start => by
      rw [Markup.Tree.node, nodeParts]
      intro p hp
      have hname : (if head.name = "^" then 1 else 0) ≤ head.text.count '^' := by
        split_ifs with h
        · simpa [h] using (sublist_name head).count_le '^'
        · exact Nat.zero_le _
      have hargs := argsRaises_le args (start + head.text.length) head.name p hp
      rw [Tree.chars, List.count_append]
      omega

/-- **A part has no more superscripts than the text that it comes from**, itself
included. So a superscript is never a part of what it contains. -/
theorem treesRaises_le : (ts : List Tree) → (start : Nat) →
    ∀ p ∈ nodesParts table (treesNodes start ts), p.raises ≤ (treesChars ts).count '^'
  | [], _ => by simp [treesNodes, nodesParts]
  | t :: ts, start => by
      rw [treesNodes, nodesParts, treesChars, List.count_append]
      intro p hp
      rcases List.mem_append.mp hp with hp | hp
      · exact (Tree.raises_le t start p hp).trans (Nat.le_add_right _ _)
      · exact (treesRaises_le ts _ p hp).trans (Nat.le_add_left _ _)

/-- A part of arguments has no more superscripts than they and the mark in front of
them. -/
theorem argsRaises_le : (args : List Arg) → (start : Nat) → (name : String) →
    ∀ p ∈ argumentsParts table name (argsArguments start args),
      p.raises ≤ (if name = "^" then 1 else 0) + (argsChars args).count '^'
  | [], _, _ => by simp [argsArguments, argumentsParts]
  | .mk before enclosure body :: args, start, name => by
      have hsplit := count_argsChars before enclosure body args
      rw [argsArguments, argumentsParts]
      intro p hp
      rcases List.mem_cons.mp hp with rfl | hp
      · have hbody : (nodesWritten table (treesNodes
            (start + (lexemesText before).length + enclosure.opening.length)
              body)).count '^' ≤ (treesChars body).count '^' :=
          treesCount_written_le body _
        simp only [Part.raises]
        omega
      rcases List.mem_append.mp hp with hp | hp
      · have := treesRaises_le body _ p hp
        omega
      · have := argsRaises_le args _ name p hp
        omega

end

end Formulary.Variable
