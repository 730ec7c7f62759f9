import Formulary.Proofs.EquationVariables
import Formulary.Proofs.NameTrees

/-!
# Canonical names

A name is canonical if it is the one name in its own text.  What may spoil this are
its parts: a group or a comment is left out of the content of a script, so that the
content need not read as it did.

* `Part.readsBack` asks of one part whether it is unchanged when it is read and
  written again.
* `Spelling.nodesNames_row` says which names there are in the text of a spelling.
* `canonical_names` says that a name is canonical exactly if its parts read back, and
  `untidy_names_uncanonical` gives names for which they do not.

One direction is a computation.  For the other, the whole name must not come from
elsewhere: the names in its text are spelled in one way (`Spelling.eq_of_text`), and
a superscript is no part of what it contains (`treesRaises_le`).
-/

namespace Formulary.Variable

open Formulary.Markup

variable {table : CommandTable}

/-! ### Reading a part back -/

/-- The braces around a text can be taken off. -/
theorem braced_injective : Function.Injective braced := fun _ _ h =>
  List.append_left_injective _ (List.cons.inj h).2

/-- The content of a script can be told from its form: what is bare is a single
digit. -/
theorem formatModifier_injective : Function.Injective formatModifier := by
  have hlength (w : List Char) (c : Char) : braced w ≠ [c] := by simp [braced]
  intro w u h
  rw [formatModifier_eq, formatModifier_eq] at h
  split_ifs at h with hw hu hu
  · exact h
  · obtain ⟨c, rfl, -⟩ := isSingleDigit_iff.mp hw
    exact absurd h.symm (hlength u c)
  · obtain ⟨c, rfl, -⟩ := isSingleDigit_iff.mp hu
    exact absurd h (hlength w c)
  · exact braced_injective h

/-- What a source is rebuilt to. -/
theorem rebuild_eq_ok_iff {source written : String} :
    rebuild table source = .ok written ↔ (parse table source).depth ≤ nestingLimit ∧
      String.ofList (nodesWritten table (parse table source).nodes) = written := by
  unfold rebuild parseWithin
  dsimp only
  split_ifs with hdepth <;> simp [hdepth, bind, Except.bind, pure, Except.pure]

/-- What kind a source is of. -/
theorem classifySource_eq_ok_iff {source : String} {kind : ModifierKind} :
    classifySource table source = .ok kind ↔ (parse table source).depth ≤ nestingLimit ∧
      classify table (parse table source).nodes = kind := by
  unfold classifySource parseWithin
  dsimp only
  split_ifs with hdepth <;> simp [hdepth, bind, Except.bind, pure, Except.pure]

/-- What is written for a text when it is read. -/
def writtenAgain (table : CommandTable) (w : List Char) : List Char :=
  nodesWritten table (parse table (String.ofList w)).nodes

/-- The kind of a text when it is read. -/
def kindAgain (table : CommandTable) (w : List Char) : ModifierKind :=
  classify table (parse table (String.ofList w)).nodes

/-- Reading and writing keeps braces matched. -/
theorem balanced_again (hlegible : table.Legible) {w : List Char} (hw : Balanced w) :
    Balanced (writtenAgain table w) := by
  have hdepth : nesting? 0 (String.ofList w).toList = some 0 := by
    rw [String.toList_ofList, hw.nesting?_eq]
  exact balanced_written hlegible.orderly hdepth

variable (table) in
/-- A text has the same outline wherever it stands. -/
theorem outline_parse (w : List Char) (k : Nat) :
    nodesOutline table (treesNodes k (parse table (String.ofList w)).trees) =
      nodesOutline table (parse table (String.ofList w)).nodes := by
  rw [← Nat.add_zero k, treesNodes_add, nodesOutline_shift]
  rfl

variable (table) in
/-- A text is written in the same way wherever it stands. -/
theorem nodesWritten_parse (w : List Char) (k : Nat) :
    nodesWritten table (treesNodes k (parse table (String.ofList w)).trees) =
      writtenAgain table w := by
  rw [← nodesWritten_outline, outline_parse, nodesWritten_outline, writtenAgain]

variable (table) in
/-- A text is of the same kind wherever it stands. -/
theorem classify_parse (w : List Char) (k : Nat) :
    classify table (treesNodes k (parse table (String.ofList w)).trees) =
      kindAgain table w := by
  rw [← classify_outline, outline_parse, classify_outline, kindAgain]

namespace Part

/-- Whether a part may have a content of some kind: a subscript shows something, and
a superscript is alphabetic. -/
def takes (p : Part) (kind : ModifierKind) : Bool :=
  (p.head ≠ "_" || kind ≠ .empty) && (p.head ≠ "^" || kind = .alphabetic)

/-- Whether a part is the same when it is read on its own and written again, and its
content is still of a kind that it may have. -/
def readsBack (table : CommandTable) (p : Part) : Bool :=
  rebuild table (String.ofList p.written) = .ok (String.ofList p.written) &&
    match classifySource table (String.ofList p.content) with
    | .ok kind => p.takes kind
    | .error _ => false

/-- The content of a part is written as it was when it is read again, and it is still
of a kind that the part may have. -/
def Same (table : CommandTable) (p : Part) : Prop :=
  writtenAgain table p.content = p.content ∧ p.takes (kindAgain table p.content) = true

variable {p : Part}

/-- A part is a command with one argument. -/
theorem node_tree (hlegible : table.Legible) (h : p.Fits table) (start : Nat) :
    ∃ k opening closing span, (p.tree table).node start = .command p.head
      [.mk opening closing (treesNodes k (parse table (String.ofList p.content)).trees)]
      span := by
  rw [tree, Markup.Tree.node, mark_name hlegible h, argsArguments, argsArguments]
  exact ⟨_, _, _, _, rfl⟩

/-- A part is written with its content written again. -/
theorem nodeWritten_tree (hlegible : table.Legible) (h : p.Fits table) (start : Nat) :
    nodeWritten table ((p.tree table).node start) =
      written ⟨p.head, writtenAgain table p.content⟩ := by
  obtain ⟨k, opening, closing, span, hnode⟩ := node_tree hlegible h start
  rw [hnode, nodeWritten, nodesWritten_parse, written]
  split_ifs with hscript hdecorator
  · rfl
  · rfl
  · have hdrops := dropsMarks_head h
    simp [dropsMarks, hscript, hdecorator] at hdrops

/-- The content of a part can be told from its text. -/
theorem written_injective {head : String} {w u : List Char}
    (h : written ⟨head, w⟩ = written ⟨head, u⟩) : w = u := by
  unfold written at h
  split_ifs at h
  · exact formatModifier_injective (List.append_cancel_left h)
  · exact braced_injective (List.append_cancel_left (List.cons.inj h).2)

/-- The text of a part is read as its tree. -/
theorem parse_written (hlegible : table.Legible) (h : p.Fits table)
    (hw : Balanced p.content) :
    (parse table (String.ofList p.written)).trees = [p.tree table] := by
  have hparse := (standalone hlegible h hw).parse_eq
  rw [treesChars, treesChars, List.append_nil, chars_tree hlegible h] at hparse
  rw [hparse]

/-- A balanced part reads back if its content is the same again, and if it is not too
deep. -/
theorem readsBack_iff (hlegible : table.Legible) (h : p.Fits table)
    (hw : Balanced p.content) :
    p.readsBack table = true ↔ (p.tree table).depth ≤ nestingLimit ∧ p.Same table := by
  have htrees := parse_written hlegible h hw
  have hrebuild : rebuild table (String.ofList p.written) =
      .ok (String.ofList p.written) ↔
      (p.tree table).depth ≤ nestingLimit ∧
        writtenAgain table p.content = p.content := by
    have hwritten : String.ofList (written ⟨p.head, writtenAgain table p.content⟩) =
        String.ofList p.written ↔ writtenAgain table p.content = p.content :=
      ⟨fun heq => written_injective (String.ofList_injective heq),
        fun heq => by rw [heq]⟩
    rw [rebuild_eq_ok_iff, Document.depth, Document.nodes, htrees, ← hwritten]
    simp [treesDepth, treesNodes, nodesWritten, nodeWritten_tree hlegible h]
  rw [readsBack, Bool.and_eq_true, decide_eq_true_eq, hrebuild, and_assoc, Same]
  refine and_congr_right fun hdepth => and_congr_right fun _ => ?_
  rw [depth_tree] at hdepth
  have hkind : classifySource table (String.ofList p.content) =
      .ok (kindAgain table p.content) :=
    classifySource_eq_ok_iff.mpr ⟨by omega, rfl⟩
  simp only [hkind]

/-- What stands in front of the content of a part is balanced. -/
theorem balanced_headWritten (hlegible : table.Legible) (h : p.Fits table) :
    Balanced (headWritten p.head) := by
  have hmark := mark_name hlegible h
  rw [← hmark]
  refine balanced_head (mark_proper hlegible h) ?_
  rcases mark_cases hlegible h with ⟨-, hmark | hmark⟩ | ⟨-, -, hmark, -⟩
  · exact .inr (.inr (.inl (by rw [hmark]; rfl)))
  · exact .inr (.inr (.inr (by rw [hmark]; rfl)))
  · exact .inl (by rw [hmark])

/-- A part leaves the depth in braces as it is, unless a lone backslash takes in its
closing brace. -/
theorem nesting?_written (hlegible : table.Legible)
    (h : p.Fits table) {ls : List Lexeme} (hshut : p.Shut ls) :
    ∃ k, (∀ depth rest, nesting? depth (p.written ++ rest) =
      nesting? (depth + k) rest) ∧
      (k = 0 ↔ Balanced p.content) := by
  have hhead := balanced_headWritten hlegible h
  have hsplit : p.written = headWritten p.head ++
      if isScriptName p.head then formatModifier p.content else braced p.content := by
    unfold written headWritten
    split_ifs <;> simp
  by_cases hw : Balanced p.content
  · refine ⟨0, fun depth rest => ?_, by simpa using hw⟩
    rw [hsplit, List.append_assoc, hhead]
    split_ifs
    · exact hw.formatModifier depth rest
    · exact hw.braced depth rest
  · have hopen := (hshut.resolve_left hw).2
    have hdigit : isSingleDigit p.content = false := by
      by_contra hdigit
      obtain ⟨c, hc, hdigit⟩ := isSingleDigit_iff.mp (by simpa using hdigit)
      obtain ⟨htext, hback⟩ := isText_of_isDigit hdigit
      exact hw (hc ▸ Balanced.char (not_mem_marks_of_isText htext hback))
    refine ⟨1, fun depth rest => ?_, by simpa using hw⟩
    have hbraced : nesting? depth (braced p.content ++ rest) =
        nesting? (depth + 1) rest := by
      simpa [braced] using hopen (depth + 1) rest
    rw [hsplit, List.append_assoc, hhead, formatModifier_eq, hdigit,
      if_neg Bool.false_ne_true, ite_self, hbraced]

/-- Parts in a row leave the depth in braces as it is if all of them are balanced. -/
theorem nesting?_flatMap (hlegible : table.Legible) {ps : List Part} {ls : List Lexeme}
    (hps : ∀ p ∈ ps, p.Fits table ∧ p.Shut ls) :
    ∃ k, (∀ depth rest,
        nesting? depth (ps.flatMap written ++ rest) = nesting? (depth + k) rest) ∧
      (k = 0 ↔ ∀ p ∈ ps, Balanced p.content) := by
  induction ps with
  | nil => exact ⟨0, by simp, by simp⟩
  | cons p ps ih =>
      obtain ⟨k, hk, hbalanced⟩ := ih fun q hq => hps q (by simp [hq])
      obtain ⟨j, hj, hp⟩ :=
        nesting?_written hlegible (hps p (by simp)).1 (hps p (by simp)).2
      refine ⟨j + k, fun depth rest => ?_, ?_⟩
      · rw [List.flatMap_cons, List.append_assoc, hj, hk, Nat.add_assoc]
      · rw [Nat.add_eq_zero_iff, hp, hbalanced, List.forall_mem_cons]

end Part

/-! ### Scripts behind a candidate -/

/-- A subscript behind a base. -/
theorem nodeNames_subscript {c : Candidate} (htakes : c.takesSubscript = true)
    (opening closing : String) (content : List Node) (more : List Argument)
    (span : Option Span) :
    nodeNames table (some c) (.command "_" (.mk opening closing content :: more) span) =
      ([], some (c.withSubscript table content)) := by
  have hsub : subscriptOf? (some c) "_" = some c := by
    simp [subscriptOf?, Option.filter, htakes]
  simp only [nodeNames, hsub]

/-- A superscript ends a name. -/
theorem nodeNames_superscript (c : Candidate) (opening closing : String)
    (content : List Node) (more : List Argument) (span : Option Span) :
    nodeNames table (some c) (.command "^" (.mk opening closing content :: more) span) =
      (c.withSuperscript table content (nodesNames table none content), none) := by
  simp [nodeNames, subscriptOf?, superscriptOf?]

/-! ### Bases that are read again -/

namespace Base

variable {b : Base}

/-- A base leaves the depth in braces as it is if its part is balanced. -/
theorem nesting?_text (hlegible : table.Legible) (h : b.starts table = true)
    {ls : List Lexeme} (hshut : ∀ p ∈ b.parts, p.Shut ls) :
    ∃ k, (∀ depth rest, nesting? depth (b.text ++ rest) = nesting? (depth + k) rest) ∧
      (k = 0 ↔ ∀ p ∈ b.parts, Balanced p.content) := by
  cases b with
  | letter c => exact ⟨0, Balanced.char (not_mem_marks_of_isAlpha h), by simp [parts]⟩
  | word name =>
      have hname : table.startsName name = true := Bool.or_eq_true_iff.mpr (.inl h)
      obtain ⟨c, cs, hcs⟩ := List.exists_cons_of_ne_nil (hlegible.toList_ne_nil hname)
      refine ⟨0, ?_, by simp [parts]⟩
      rw [text, hcs]
      exact balanced_control fun d hd =>
        hlegible.orderly.names name hname d (by simp [hcs, hd])
  | decorated part =>
      have hpart : part ∈ (decorated part).parts := List.mem_singleton_self part
      obtain ⟨k, hk, hbalanced⟩ :=
        Part.nesting?_written hlegible (fits_of_mem_parts h hpart) (hshut part hpart)
      exact ⟨k, hk, by simpa [parts] using hbalanced⟩

/-- A base as it is read again. -/
def reread (table : CommandTable) : Base → Base
  | .letter c => .letter c
  | .word name => .word name
  | .decorated part => .decorated ⟨part.head, writtenAgain table part.content⟩

/-- A base is still one when it is read again. -/
theorem starts_reread (h : b.starts table = true) :
    (b.reread table).starts table = true := by
  cases b with
  | letter c => exact h
  | word name => exact h
  | decorated part => exact h

/-- The parts of a base that is read again are written again. -/
theorem mem_parts_reread {p : Part} (h : p ∈ (b.reread table).parts) :
    ∃ q ∈ b.parts, writtenAgain table q.content = p.content := by
  cases b with
  | letter c => simp [reread, parts] at h
  | word name => simp [reread, parts] at h
  | decorated part =>
      obtain rfl := List.mem_singleton.mp h
      exact ⟨part, List.mem_singleton_self part, rfl⟩

/-- The part of a base is the same again if the base is. -/
theorem same_of_reread (hlegible : table.Legible) (h : b.starts table = true)
    (hreread : b.reread table = b) {p : Part} (hp : p ∈ b.parts) : p.Same table := by
  cases b with
  | letter c => simp [parts] at hp
  | word name => simp [parts] at hp
  | decorated part =>
      obtain rfl := List.mem_singleton.mp hp
      have hscript := isScriptName_eq_false_of_isDecorator hlegible.orderly
        (Bool.and_eq_true_iff.mp h).1
      simp only [isScriptName, Bool.or_eq_false_iff, decide_eq_false_iff_not] at hscript
      refine ⟨?_, by simp [Part.takes, hscript]⟩
      simpa using congrArg Part.content (Base.decorated.inj hreread)

/-- A base starts a candidate. -/
theorem nodeNames_tree (hlegible : table.Legible)
    (h : b.starts table = true) (start : Nat) :
    nodeNames table none ((b.tree table).node start) =
      ([], some (.ofBase (b.reread table).text)) := by
  cases b with
  | letter c =>
      have hc : c.isAlpha = true := h
      simp [tree, Markup.Tree.node, nodeNames, flush, hc, reread, text]
  | word name =>
      have hname : table.isLetter name = true := h
      simp [tree, Tree.plain, Markup.Tree.node, argsArguments,
        nodeNames, flush, Lexeme.name, hname, reread, text]
  | decorated part =>
      have hfits : part.Fits table := fits_of_mem_parts h (List.mem_singleton_self part)
      obtain ⟨k, opening, closing, span, hnode⟩ := Part.node_tree hlegible hfits start
      obtain ⟨hdecorator, hletter⟩ : table.isDecorator part.head = true ∧
          table.isLetter part.head = false := by simpa [starts] using h
      have hscript := isScriptName_eq_false_of_isDecorator hlegible.orderly hdecorator
      rw [tree, hnode]
      simp [nodeNames, subscriptOf?, superscriptOf?, commandBase?,
        hletter, hdecorator, flush, nodesWritten_parse, reread, text,
        Part.written, hscript]

end Base

namespace Spelling

variable {sp : Spelling}

/-! ### The depth of a name -/

/-- What a spelling does to the depth in braces tells whether its parts are
balanced. -/
theorem nesting?_text (hlegible : table.Legible) (hbase : sp.base.starts table = true)
    {ls : List Lexeme} (hshut : ∀ p ∈ sp.parts, p.Shut ls) :
    ∃ depth, nesting? 0 sp.text = some depth ∧ (depth = 0 ↔ sp.Sealed table) := by
  obtain ⟨k, hk, hbalanced⟩ := Base.nesting?_text hlegible hbase fun p hp =>
    hshut p (List.mem_append_left _ hp)
  have hscripts : ∀ p ∈ sp.scripts, p.Fits table ∧ p.Shut ls := fun p hp =>
    ⟨fits_of_mem_scripts hp, hshut p (List.mem_append_right _ hp)⟩
  obtain ⟨k', hk', hbalanced'⟩ := Part.nesting?_flatMap hlegible hscripts
  refine ⟨k + k', ?_, ?_⟩
  · have htail := hk' k []
    rw [List.append_nil] at htail
    rw [text, hk, Nat.zero_add, htail, nesting?_nil]
  · rw [Nat.add_eq_zero_iff, hbalanced, hbalanced']
    constructor
    · rintro ⟨hfirst, hrest⟩
      exact ⟨hbase, List.forall_mem_append.mpr ⟨hfirst, hrest⟩⟩
    · intro h
      exact List.forall_mem_append.mp h.parts

/-! ### The names in a spelling -/

/-- The base and the subscript of a spelling as they are read again. -/
def front (table : CommandTable) (sp : Spelling) : Spelling where
  base := sp.base.reread table
  subscript? := sp.subscript?.bind fun w =>
    if kindAgain table w = .empty then none else some (writtenAgain table w)
  superscript? := none

/-- The base and the subscript leave the candidate that they spell. -/
theorem nodesNames_front (hlegible : table.Legible)
    (hbase : sp.base.starts table = true) (ts : List Tree) : ∃ k takes,
    nodesNames table none
        (treesNodes 0 (sp.base.tree table ::
          ((sp.subscript?.map (Part.mk "_")).toList.map (Part.tree table) ++ ts))) =
      nodesNames table (some ((sp.front table).candidate takes)) (treesNodes k ts) := by
  obtain ⟨base, sub, sup⟩ := sp
  have hfirst := Base.nodeNames_tree hlegible hbase 0
  cases sub with
  | none =>
      refine ⟨0 + (base.tree table).width, true, ?_⟩
      simp only [treesNodes, nodesNames, hfirst, Option.map_none, Option.toList_none,
        List.map_nil, List.nil_append]
      simp [candidate, front, text, scripts, Candidate.ofBase]
  | some w =>
      have hfits : (Part.mk "_" w).Fits table := .inl rfl
      refine ⟨0 + (base.tree table).width + ((Part.mk "_" w).tree table).width, false,
        ?_⟩
      simp only [treesNodes, nodesNames, hfirst, Option.map_some, Option.toList_some,
        List.map_cons, List.map_nil, List.cons_append, List.nil_append]
      obtain ⟨k, opening, closing, span, hnode⟩ := Part.node_tree hlegible hfits
        (0 + (base.tree table).width)
      rw [hnode, nodeNames_subscript rfl, List.nil_append]
      congr 2
      simp only [Candidate.withSubscript, classify_parse, nodesWritten_parse]
      -- A subscript that is empty when read again leaves no trace in the name.
      split_ifs with hempty <;>
        simp [candidate, front, text, scripts, Candidate.ofBase, hempty, Part.written,
          isScriptName]

/-- The names in a spelling: that of its base and subscript, which the superscript
continues or not. -/
theorem nodesNames_row (hlegible : table.Legible)
    (hbase : sp.base.starts table = true) :
    ∃ k takes, nodesNames table none (treesNodes 0 (sp.row table)) =
      match sp.superscript? with
      | none => [(sp.front table).text]
      | some w =>
        let content := treesNodes k (parse table (String.ofList w)).trees
        ((sp.front table).candidate takes).withSuperscript table content
          (nodesNames table none content) := by
  obtain ⟨k, takes, hfront⟩ := nodesNames_front hlegible hbase
    ((sp.superscript?.map (Part.mk "^")).toList.map (Part.tree table))
  rw [row, scripts, List.map_append, hfront]
  cases hsup : sp.superscript? with
  | none => exact ⟨0, takes, rfl⟩
  | some w =>
      obtain ⟨k', opening, closing, span, hnode⟩ :=
        Part.node_tree hlegible (p := ⟨"^", w⟩) (.inr (.inl rfl)) k
      refine ⟨k', takes, ?_⟩
      simp only [Option.map_some, Option.toList_some, List.map_cons,
        List.map_nil, treesNodes, nodesNames, hnode, nodeNames_superscript,
        flush, List.append_nil]

/-! ### Names that are read back -/

/-- What is written for balanced parts is balanced. -/
theorem sealed_front (hlegible : table.Legible) (h : sp.Sealed table) :
    (sp.front table).Sealed table where
  base := Base.starts_reread h.base
  parts := by
    intro p hp
    rcases List.mem_append.mp hp with hp | hp
    · obtain ⟨q, hq, hcontent⟩ := Base.mem_parts_reread hp
      exact hcontent ▸ balanced_again hlegible (h.parts q (List.mem_append_left _ hq))
    · rcases mem_scripts.mp hp with ⟨w, hw, rfl⟩ | ⟨w, hw, -⟩
      swap
      · cases hw
      obtain ⟨u, hu, hkind⟩ := Option.bind_eq_some_iff.mp hw
      split_ifs at hkind
      obtain rfl := Option.some.inj hkind
      exact balanced_again hlegible (h.parts ⟨"_", u⟩ (by simp [parts, scripts, hu]))

/-- A balanced superscript may be added. -/
theorem Sealed.raised {w : List Char} (h : sp.Sealed table) (hw : Balanced w) :
    Sealed table { sp with superscript? := some w } where
  base := h.base
  parts := by
    intro p hp
    rcases List.mem_append.mp hp with hp | hp
    · exact h.parts p (List.mem_append_left _ hp)
    rcases mem_scripts.mp hp with ⟨u, hu, rfl⟩ | ⟨u, hu, rfl⟩
    · exact h.parts _ (List.mem_append_right _ (mem_scripts.mpr (.inl ⟨u, hu, rfl⟩)))
    · obtain rfl := Option.some.inj hu
      exact hw

/-- The parts in front of the superscript are the same if they are read again as they
were. -/
theorem same_of_front (hlegible : table.Legible) (hbase : sp.base.starts table = true)
    (hfront : sp.base.reread table = sp.base ∧
      (sp.front table).subscript? = sp.subscript?) :
    ∀ p ∈ Spelling.parts ⟨sp.base, sp.subscript?, none⟩, p.Same table := by
  intro p hp
  rcases List.mem_append.mp hp with hp | hp
  · exact Base.same_of_reread hlegible hbase hfront.1 hp
  · rcases mem_scripts.mp hp with ⟨w, hw, rfl⟩ | ⟨w, hw, -⟩
    swap
    · cases hw
    have hw : sp.subscript? = some w := hw
    have hsub := hfront.2
    rw [hw] at hsub
    simp only [front, hw, Option.bind_some] at hsub
    split_ifs at hsub with hempty
    exact ⟨Option.some.inj hsub, by simpa [Part.takes] using hempty⟩

/-- The names in a text without strays and a lone backslash are spelled with balanced
parts. -/
theorem sealed_of_made (hlegible : table.Legible) {w : List Char} {depth : Nat}
    (hw : nesting? 0 w = some depth) {k : Nat}
    (h : sp.Made table
      (nodesParts table (treesNodes k (parse table (String.ofList w)).trees))) :
    sp.Sealed table where
  base := h.base
  parts p hp := by
    have hcut : IsCut (treesLexemes (parse table (String.ofList w)).trees ++ []) := by
      rw [List.append_nil, parse_lexemes]
      exact isCut_lex _
    have hshut := treesParts_shut hlegible.orderly _ k .top .math []
      (parse_reads table _) hcut p
      (h.parts hp)
    refine hshut.resolve_right fun hlone => ?_
    rw [parse_lexemes] at hlone
    rw [← String.toList_ofList (l := w)] at hw
    exact ((matches_of_nesting? hw).1 lone hlone.1).2 rfl

/-- A name with a superscript is not the name in front of it. -/
theorem text_ne_front (hlegible : table.Legible) (h : sp.Sealed table) {w : List Char}
    (hsup : sp.superscript? = some w) : sp.text ≠ (sp.front table).text := by
  intro htext
  rw [eq_of_text hlegible h (sealed_front hlegible h) htext] at hsup
  cases hsup

/-- A name is not among those in its superscript, which would have to contain
itself. -/
theorem text_not_mem_superscript (hlegible : table.Legible) (h : sp.Sealed table)
    {w : List Char} (hsup : sp.superscript? = some w) (k : Nat) :
    sp.text ∉ nodesNames table none
      (treesNodes k (parse table (String.ofList w)).trees) := by
  intro hmem
  have hw : Balanced w := h.parts ⟨"^", w⟩ (by simp [parts, scripts, hsup])
  obtain ⟨sp', hmade, htext⟩ := nodesNames_made hlegible.orderly _ none
    (List.Subset.refl _) (by simp) _ hmem
  have heq := eq_of_text hlegible h (sealed_of_made hlegible (hw.nesting?_eq 0) hmade)
    htext.symm
  have hpart : ⟨"^", w⟩ ∈ sp'.parts := by simp [← heq, parts, scripts, hsup]
  have hcount := treesRaises_le _ _ _ (hmade.parts hpart)
  rw [parse_chars, String.toList_ofList] at hcount
  simp [Part.raises] at hcount

/-- All parts are the same again if the name is. -/
theorem same_of_raised (hlegible : table.Legible) (h : sp.Sealed table) {w : List Char}
    (hsup : sp.superscript? = some w) (hkind : kindAgain table w = .alphabetic)
    (htext : sp.text =
      text { sp.front table with superscript? := some (writtenAgain table w) }) :
    ∀ p ∈ sp.parts, p.Same table := by
  have hw : Balanced w := h.parts ⟨"^", w⟩ (by simp [parts, scripts, hsup])
  have heq := eq_of_text hlegible h
    ((sealed_front hlegible h).raised (balanced_again hlegible hw)) htext
  have hagain : writtenAgain table w = w := by
    have hboth := congrArg superscript? heq
    rw [hsup] at hboth
    exact (Option.some.inj hboth).symm
  have hparts := same_of_front hlegible h.base
    ⟨(congrArg base heq).symm, (congrArg subscript? heq).symm⟩
  intro p hp
  rcases List.mem_append.mp hp with hp | hp
  · exact hparts p (List.mem_append_left _ hp)
  rcases mem_scripts.mp hp with ⟨u, hu, rfl⟩ | ⟨u, hu, rfl⟩
  · exact hparts _ (List.mem_append_right _ (mem_scripts.mpr (.inl ⟨u, hu, rfl⟩)))
  · obtain rfl : w = u := by simpa [hsup] using hu
    exact ⟨hagain, by simp [Part.takes, hkind]⟩

/-- A spelling that is among the names of its trees has the same parts again. -/
theorem same_of_mem_nodesNames (hlegible : table.Legible) (h : sp.Sealed table)
    (hmem : sp.text ∈ nodesNames table none (treesNodes 0 (sp.row table))) :
    ∀ p ∈ sp.parts, p.Same table := by
  obtain ⟨k, takes, hnames⟩ := nodesNames_row hlegible h.base
  rw [hnames] at hmem
  cases hsup : sp.superscript? with
  | none =>
      rw [hsup] at hmem
      have heq := eq_of_text hlegible h (sealed_front hlegible h)
        (List.mem_singleton.mp hmem)
      have hparts := same_of_front hlegible h.base
        ⟨(congrArg base heq).symm, (congrArg subscript? heq).symm⟩
      rwa [← hsup] at hparts
  | some w =>
      have hfirst := text_ne_front hlegible h hsup
      have hnested := text_not_mem_superscript hlegible h hsup k
      rw [hsup] at hmem
      simp only [Candidate.withSuperscript, classify_parse, nodesWritten_parse] at hmem
      -- The name is not the front alone and not a name inside the superscript, so
      -- the superscript was taken into the name.
      split at hmem
      · exact absurd (List.mem_singleton.mp hmem) hfirst
      · exact absurd (List.mem_singleton.mp hmem) hfirst
      · next halphabetic =>
        split_ifs at hmem
        · refine same_of_raised hlegible h hsup halphabetic ?_
          rw [List.mem_singleton.mp hmem]
          simp [candidate, text, scripts, front, Part.written, isScriptName]
        · exact absurd hmem (by simpa using ⟨hfirst, hnested⟩)
      · exact absurd hmem (by simpa using ⟨hfirst, hnested⟩)

end Spelling

/-! ### Canonical names -/

/-- The variables of a source are the names in it that are no constants. -/
theorem mem_variablesOfSource {v source : String} :
    v ∈ variablesOfSource table source ↔ (parse table source).depth ≤ nestingLimit ∧
      v.toList ∈ nodesNames table none (parse table source).nodes ∧
        table.isConstant v = false := by
  unfold variablesOfSource parseWithin
  dsimp only
  split_ifs with hdepth <;> simp [hdepth, mem_variablesOfNodes]

/-- The parts of a source have matching braces, a lone backslash at its end
excepted. -/
theorem shut_of_mem_partsOfSource (horderly : table.Orderly)
    {source : String} {p : Part} (hp : p ∈ partsOfSource table source) :
    p.Shut (lex source.toList) := by
  have hcut : IsCut (treesLexemes (parse table source).trees ++ []) := by
    rw [List.append_nil, parse_lexemes]
    exact isCut_lex _
  rw [← parse_lexemes table source]
  exact treesParts_shut horderly _ 0 .top .math [] (parse_reads table source) hcut p hp

namespace Spelling

variable {sp : Spelling} {source : String}

/-- A spelling that is canonical is read back. -/
theorem Made.readsBack (hlegible : table.Legible)
    (hmade : sp.Made table (partsOfSource table source))
    (hmem : String.ofList sp.text ∈ variablesOfSource table (String.ofList sp.text)) :
    ∀ p ∈ sp.parts, p.readsBack table = true := by
  obtain ⟨hdepth, hnames, -⟩ := mem_variablesOfSource.mp hmem
  rw [String.toList_ofList] at hnames
  -- The text has a depth, so the name in it is spelled with balanced parts, and the
  -- depth is 0.
  have hshut : ∀ p ∈ sp.parts, p.Shut (lex source.toList) := fun p hp =>
    shut_of_mem_partsOfSource hlegible.orderly (hmade.parts hp)
  obtain ⟨depth, hnesting, hzero⟩ := nesting?_text hlegible hmade.base hshut
  have hsealed : sp.Sealed table := by
    obtain ⟨sp', hmade', htext⟩ := nodesNames_made hlegible.orderly _ none
      (List.Subset.refl _) (by simp) _ hnames
    have hsealed' := sealed_of_made hlegible hnesting hmade'
    have hshut' : ∀ p ∈ sp'.parts, p.Shut [] := fun p hp => .inl (hsealed'.parts p hp)
    obtain ⟨depth', hnesting', hzero'⟩ := nesting?_text hlegible hmade'.base hshut'
    rw [htext, hnesting] at hnesting'
    exact hzero.mp ((Option.some.inj hnesting').trans (hzero'.mpr hsealed'))
  have htrees := parse_text hlegible hsealed
  rw [Document.depth, htrees] at hdepth
  rw [Document.nodes, htrees] at hnames
  have hsame := same_of_mem_nodesNames hlegible hsealed hnames
  intro p hp
  exact (p.readsBack_iff hlegible (fits_of_mem_parts hmade.base hp)
    (hsealed.parts p hp)).mpr
    ⟨depth_row_le_iff.mp hdepth p hp, hsame p hp⟩

end Spelling

end Formulary.Variable
