import Formulary.Proofs.Extraction
import Formulary.Proofs.Orderly

/-!
# Symbols and the variables they belong to

The variables of a source neither lose a symbol of it nor make one up.  A symbol goes
into the base of a variable or into a script or a decoration that is written out in a
name, or it is looked for on its own; and every name starts with a letter, a command
that names a letter, or a decorator.

The walk over the nodes carries a candidate from node to node, so both halves are
first said of a single node (`nodeNames_shows`, `nodeNames_begin`), with what the
candidate shows on both sides, and then follow for nodes in a row.

* `Shows` says that names show a symbol.
* `symbols_of_variables` is the main statement.
-/

namespace Formulary

open Formulary.Markup

namespace Variable

variable {table : CommandTable}

/-! ### Symbols in what is written -/

theorem infix_middle {s cs : List Char} (h : s <:+: cs) (before after : List Char) :
    s <:+: before ++ (cs ++ after) :=
  h.trans ⟨before, after, List.append_assoc before cs after⟩

theorem infix_formatModifier (raw : List Char) : raw <:+: formatModifier raw := by
  have hbraced (cs : List Char) : cs <:+: braced cs := ⟨['{'], ['}'], rfl⟩
  unfold formatModifier
  split
  · split_ifs
    · exact List.infix_rfl
    · exact hbraced _
  · exact hbraced _

/-- In an orderly table no script mark names a letter. -/
theorem isLetter_eq_false_of_isScriptName (horderly : table.Orderly) {name : String}
    (h : isScriptName name = true) : table.isLetter name = false := by
  by_contra hletter
  have halpha := wordNames_isLetter horderly name (by simpa using hletter)
  simp only [isScriptName, Bool.or_eq_true, decide_eq_true_eq] at h
  rcases h with rfl | rfl <;> simp at halpha

/-- A command with an argument shows what its arguments show. -/
theorem symbols_command_cons {name : String} {arg : Argument} {more : List Argument}
    {span : Option Span} (h : nodeFits table (.command name (arg :: more) span)) :
    Node.symbols table.isLetter (.command name (arg :: more) span) =
      argumentsSymbols table.isLetter (arg :: more) := by
  have hletter : table.isLetter name = false := by
    simp only [nodeFits] at h
    by_contra hletter
    simpa using h.1 (by simpa using hletter)
  simp [Node.symbols, hletter]

mutual

/-- A symbol of a node is in what is written for it. -/
theorem infix_nodeWritten (horderly : table.Orderly) {s : List Char} : (n : Node) →
    nodeFits table n → s ∈ n.symbols table.isLetter → s <:+: nodeWritten table n
  | .text content _, _, hs => by
      simp only [Node.symbols, List.mem_map, List.mem_filter] at hs
      obtain ⟨c, ⟨hc, -⟩, rfl⟩ := hs
      obtain ⟨before, after, rfl⟩ := List.append_of_mem hc
      exact ⟨before, after, by simp [nodeWritten]⟩
  | .blank _ _, _, hs => by simp [Node.symbols] at hs
  | .comment _ _, _, hs => by simp [Node.symbols] at hs
  | .group children _, hfits, hs => by
      simp only [nodeFits] at hfits
      rw [Node.symbols] at hs
      rw [nodeWritten]
      exact infix_nodesWritten horderly children hfits hs
  | .command name [] _, _, hs => by
      cases hletter : table.isLetter name with
      | false => simp [Node.symbols, argumentsSymbols, hletter] at hs
      | true =>
          have hscript : isScriptName name = false := by
            by_contra hscript
            simp [isLetter_eq_false_of_isScriptName horderly
              (by simpa using hscript)] at hletter
          obtain rfl : s = '\\' :: name.toList := by
            simpa [Node.symbols, argumentsSymbols, hletter] using hs
          simp [nodeWritten, hscript]
  | .command name (.mk opening closing content :: more) span, hfits, hs => by
      rw [symbols_command_cons hfits, argumentsSymbols, List.mem_append] at hs
      simp only [nodeFits, argumentsFit] at hfits
      obtain ⟨-, hfirst, hcontent, hmore⟩ := hfits
      have hwritten (h : s ∈ nodesSymbols table.isLetter content) :=
        infix_nodesWritten horderly content hcontent h
      rw [nodeWritten]
      cases honly : isScriptName name || table.isDecorator name with
      | true =>
          -- Only the first argument is written, and there is no other one.
          obtain rfl : more = [] := by simpa using hfirst honly
          have hs : s ∈ nodesSymbols table.isLetter content := by
            simpa [argumentsSymbols] using hs
          split_ifs with hscript hdecorator
          · exact ((hwritten hs).trans (infix_formatModifier _)).trans
              (List.suffix_append _ _).isInfix
          · simpa [braced] using infix_middle (hwritten hs)
              ('\\' :: (name.toList ++ ['{'])) ['}']
          · simp [hscript, hdecorator] at honly
      | false =>
          obtain ⟨hscript, hdecorator⟩ := Bool.or_eq_false_iff.mp honly
          simp only [hscript, hdecorator, Bool.false_eq_true, if_false]
          rcases hs with hs | hs
          · simpa using infix_middle (hwritten hs)
              ('\\' :: (name.toList ++ opening.toList))
              (closing.toList ++ argumentsWritten table more)
          · simpa using infix_middle (infix_argumentsWritten horderly more hmore hs)
              ('\\' :: (name.toList ++ (opening.toList ++ (nodesWritten table content ++
                closing.toList)))) []

/-- A symbol of nodes is in what is written for them. -/
theorem infix_nodesWritten (horderly : table.Orderly)
    {s : List Char} : (ns : List Node) → nodesFit table ns →
      s ∈ nodesSymbols table.isLetter ns → s <:+: nodesWritten table ns
  | [], _, hs => by simp [nodesSymbols] at hs
  | n :: ns, hfits, hs => by
      simp only [nodesFit] at hfits
      rw [nodesSymbols, List.mem_append] at hs
      rw [nodesWritten]
      rcases hs with hs | hs
      · exact (infix_nodeWritten horderly n hfits.1 hs).trans
          (List.prefix_append _ _).isInfix
      · exact (infix_nodesWritten horderly ns hfits.2 hs).trans
          (List.suffix_append _ _).isInfix

/-- A symbol of arguments is in what is written for them. -/
theorem infix_argumentsWritten (horderly : table.Orderly) {s : List Char} :
    (args : List Argument) → argumentsFit table args →
      s ∈ argumentsSymbols table.isLetter args →
      s <:+: argumentsWritten table args
  | [], _, hs => by simp [argumentsSymbols] at hs
  | .mk opening closing content :: rest, hfits, hs => by
      simp only [argumentsFit] at hfits
      rw [argumentsSymbols, List.mem_append] at hs
      rw [argumentsWritten]
      rcases hs with hs | hs
      · exact infix_middle (infix_nodesWritten horderly content hfits.1 hs) _ _
      · simpa using infix_middle (infix_argumentsWritten horderly rest hfits.2 hs)
          (opening.toList ++ (nodesWritten table content ++ closing.toList)) []

end

/-! ### Content without symbols -/

theorem isAlpha_eq_false_of_isBlank {c : Char} (h : Text.isBlank c = true) :
    c.isAlpha = false := by
  by_contra halpha
  simp [isBlank_of_isAlpha (by simpa using halpha)] at h

theorem isAlpha_eq_false_of_isDigit {c : Char} (h : c.isDigit = true) :
    c.isAlpha = false := by
  by_contra halpha
  have hletter : Lexeme.startKind c = .letter :=
    startKind_of_isAlpha (by simpa using halpha)
  simp [startKind_of_isDigit h] at hletter

variable {counts : String → Bool}

mutual

/-- A node that shows nothing or a number has no symbols. -/
theorem symbols_of_plain :
    (n : Node) → (nodeIsBlank n = true ∨ nodeIsNumeric n = true) → n.symbols counts = []
  | .text content _, h => by
      have hnone : ∀ c ∈ content, c.isAlpha = false := by
        intro c hc
        simp only [nodeIsBlank, nodeIsNumeric, Bool.and_eq_true, List.all_eq_true] at h
        rcases h with h | h
        · exact isAlpha_eq_false_of_isBlank (h c hc)
        · exact isAlpha_eq_false_of_isDigit (h.2 c hc)
      have hfilter : content.filter Char.isAlpha = [] := by simpa using hnone
      rw [Node.symbols, hfilter, List.map_nil]
  | .blank _ _, _ => rfl
  | .comment _ _, _ => rfl
  | .group children _, h => by
      rw [Node.symbols]
      exact nodesSymbols_of_plain children
        (by simpa only [nodeIsBlank, nodeIsNumeric] using h)
  | .command _ _ _, h => by simp [nodeIsBlank, nodeIsNumeric] at h

/-- Content that shows nothing, or digits only, has no symbols in it. -/
theorem nodesSymbols_of_plain : (ns : List Node) →
    (nodesAreBlank ns = true ∨ nodesAreNumeric ns = true) → nodesSymbols counts ns = []
  | [], _ => rfl
  | n :: ns, h => by
      simp only [nodesAreBlank, nodesAreNumeric, Bool.and_eq_true] at h
      rw [nodesSymbols, symbols_of_plain n (h.imp And.left And.left),
        nodesSymbols_of_plain ns (h.imp And.right And.right), List.append_nil]

end

/-- Only modifiers that are alphabetic or mixed have symbols, so none is lost with
the others. -/
theorem nodesSymbols_of_classify {ns : List Node}
    (h : classify table ns = .empty ∨ classify table ns = .numeric) :
    nodesSymbols counts ns = [] := by
  apply nodesSymbols_of_plain
  unfold classify at h
  split_ifs at h with hblank hnumeric
  · exact .inl hblank
  · exact .inr hnumeric
  · simp at h
  · simp at h

/-! ### Names that show a symbol -/

/-- A name has a script or a decoration. -/
def Compound (name : List Char) : Prop :=
  '_' ∈ name ∨ '^' ∈ name ∨ '{' ∈ name

/-- Names show a symbol: it is one of them, or it stands in one that has a script or
a decoration. -/
def Shows (names : List (List Char)) (s : List Char) : Prop :=
  s ∈ names ∨ ∃ name ∈ names, s <:+: name ∧ Compound name

namespace Shows

variable {names more : List (List Char)} {s : List Char}

theorem append_iff : Shows (names ++ more) s ↔ Shows names s ∨ Shows more s := by
  simp only [Shows, List.mem_append, or_and_right, exists_or]
  exact or_or_or_comm

theorem append_left (h : Shows names s) (more : List (List Char)) :
    Shows (names ++ more) s :=
  append_iff.mpr (.inl h)

theorem append_right (h : Shows more s) (names : List (List Char)) :
    Shows (names ++ more) s :=
  append_iff.mpr (.inr h)

/-- What is shown on the left or has some other reason to be shown on the right is
shown by both. -/
theorem append_of_or {P : Prop} (h : Shows names s ∨ P) (hP : P → Shows more s) :
    Shows (names ++ more) s :=
  append_iff.mpr (h.imp_right hP)

/-- What a name shows is still shown by a longer name. -/
theorem grow {name longer : List Char} (h : Shows [name] s) (hname : name <:+: longer)
    (hlonger : Compound longer) : Shows [longer] s := by
  refine .inr ⟨longer, List.mem_singleton_self longer, ?_, hlonger⟩
  rcases h with h | ⟨name', hname', h, -⟩
  · rwa [List.mem_singleton.mp h]
  · rw [List.mem_singleton.mp hname'] at h
    exact h.trans hname

end Shows

/-! ### What a candidate shows -/

namespace Candidate

variable {c : Candidate} {content : List Node} {s : List Char}

/-- The identity of a candidate grows from its base, and is the base as long as a
subscript may follow. -/
structure Sound (c : Candidate) : Prop where
  grows : c.base <+: c.identity
  bare : c.takesSubscript = true → c.identity = c.base

theorem sound_ofBase (base : List Char) : (ofBase base).Sound where
  grows := List.prefix_rfl
  bare _ := rfl

theorem Sound.withSubscript (h : c.Sound) (table : CommandTable) (content : List Node) :
    (c.withSubscript table content).Sound := by
  unfold Candidate.withSubscript
  split_ifs
  · exact ⟨h.grows, by simp⟩
  · exact ⟨List.prefix_append _ _, by simp⟩

/-- With a subscript a name shows what it showed and the symbols of the subscript. -/
theorem shows_withSubscript (horderly : table.Orderly)
    (hfits : nodesFit table content) (h : c.Sound) (htakes : c.takesSubscript = true)
    (hs : Shows [c.identity] s ∨ s ∈ nodesSymbols table.isLetter content) :
    Shows [(c.withSubscript table content).identity] s := by
  unfold Candidate.withSubscript
  split_ifs with hempty
  · rw [nodesSymbols_of_classify (.inl hempty)] at hs
    exact hs.resolve_right List.not_mem_nil
  · rw [h.bare htakes] at hs
    have hcompound (text : List Char) : Compound (c.base ++ '_' :: text) :=
      .inl (by simp)
    rcases hs with hs | hs
    · exact hs.grow (List.prefix_append _ _).isInfix (hcompound _)
    · refine .inr ⟨_, List.mem_singleton_self _, ?_, hcompound _⟩
      have hwritten := (infix_nodesWritten horderly content hfits hs).trans
        (infix_formatModifier _)
      simpa using infix_middle hwritten (c.base ++ ['_']) []

/-- A superscript is shown in the name that it becomes part of, or by the names in
it. -/
theorem shows_withSuperscript (horderly : table.Orderly)
    (hfits : nodesFit table content) {nested : List (List Char)}
    (hnested : ∀ s ∈ nodesSymbols table.isLetter content, Shows nested s)
    (hs : Shows [c.identity] s ∨ s ∈ nodesSymbols table.isLetter content) :
    Shows (c.withSuperscript table content nested) s := by
  have hboth : Shows (c.identity :: nested) s := by
    rcases hs with hs | hs
    · exact hs.append_left nested
    · exact (hnested s hs).append_right [c.identity]
  have hplain (h : classify table content = .empty ∨
      classify table content = .numeric) :
      Shows [c.identity] s := by
    rw [nodesSymbols_of_classify h] at hs
    exact hs.resolve_right List.not_mem_nil
  unfold Candidate.withSuperscript
  split
  · exact hplain (.inl ‹_›)
  · exact hplain (.inr ‹_›)
  · split_ifs
    · have hcompound (text : List Char) : Compound (c.identity ++ '^' :: text) :=
        .inr (.inl (by simp))
      rcases hs with hs | hs
      · exact hs.grow (List.prefix_append _ _).isInfix (hcompound _)
      · refine .inr ⟨_, List.mem_singleton_self _, ?_, hcompound _⟩
        have hwritten := (infix_nodesWritten horderly content hfits hs).trans
          (infix_formatModifier _)
        simpa using infix_middle hwritten (c.identity ++ ['^']) []
    · exact hboth
  · exact hboth

end Candidate

/-! ### The walk over the nodes -/

/-- What takes a subscript is a candidate that has none yet. -/
theorem eq_of_subscriptOf? {cur : Option Candidate} {name : String} {c : Candidate}
    (h : subscriptOf? cur name = some c) :
    name = "_" ∧ cur = some c ∧ c.takesSubscript = true := by
  unfold subscriptOf? at h
  split_ifs at h with hname
  exact ⟨hname, Option.filter_eq_some_iff.mp h⟩

theorem eq_of_superscriptOf? {cur : Option Candidate} {name : String} {c : Candidate}
    (h : superscriptOf? cur name = some c) : name = "^" ∧ cur = some c := by
  unfold superscriptOf? at h
  split_ifs at h with hname
  exact ⟨hname, h⟩

/-- What a command with an argument does: it is a script of the candidate in front of
it, or starts a base, or its arguments are looked at on their own. -/
theorem nodeNames_command_cases (table : CommandTable)
    (cur : Option Candidate) (name : String) (opening closing : String)
    (content : List Node) (more : List Argument) (span : Option Span) :
    let r := nodeNames table cur
      (.command name (.mk opening closing content :: more) span)
    (∃ c, name = "_" ∧ cur = some c ∧ c.takesSubscript = true ∧
        r = ([], some (c.withSubscript table content))) ∨
      (∃ c, name = "^" ∧ cur = some c ∧
        r = (c.withSuperscript table content (nodesNames table none content), none)) ∨
      (∃ base, commandBase? table name content = some base ∧
        r = (flush cur, some (.ofBase base))) ∨
      (commandBase? table name content = none ∧
        r = (flush cur ++ (nodesNames table none content ++ argumentsNames table more),
        none)) := by
  rcases hsub : subscriptOf? cur name with _ | c
  · rcases hsup : superscriptOf? cur name with _ | c
    · rcases hbase : commandBase? table name content with _ | base
      · exact .inr (.inr (.inr ⟨rfl, by simp only [nodeNames, hsub, hsup, hbase]⟩))
      · exact .inr (.inr
          (.inl ⟨base, rfl, by simp only [nodeNames, hsub, hsup, hbase]⟩))
    · obtain ⟨hname, hcur⟩ := eq_of_superscriptOf? hsup
      exact .inr (.inl ⟨c, hname, hcur, by simp only [nodeNames, hsub, hsup]⟩)
  · obtain ⟨hname, hcur, htakes⟩ := eq_of_subscriptOf? hsub
    exact .inl ⟨c, hname, hcur, htakes, by simp only [nodeNames, hsub]⟩

theorem nodeNames_sound {cur : Option Candidate}
    (hcur : ∀ c ∈ cur, c.Sound) (n : Node) :
    ∀ c ∈ (nodeNames table cur n).2, c.Sound := by
  intro c hc
  match n, hc with
  | .text [] _, hc => simp [nodeNames] at hc
  | .text [d] _, hc =>
      obtain ⟨-, rfl⟩ : d.isAlpha = true ∧ Candidate.ofBase [d] = c := by
        simpa [nodeNames] using hc
      exact Candidate.sound_ofBase _
  | .text (_ :: _ :: _) _, hc => simp [nodeNames] at hc
  | .blank _ _, hc => simp [nodeNames] at hc
  | .comment _ _, hc => simp [nodeNames] at hc
  | .group _ _, hc => simp [nodeNames] at hc
  | .command name [] _, hc =>
      obtain ⟨-, rfl⟩ : table.isLetter name = true ∧
          Candidate.ofBase ('\\' :: name.toList) = c := by
        simpa [nodeNames] using hc
      exact Candidate.sound_ofBase _
  | .command name (.mk opening closing content :: more) span, hc =>
      rcases nodeNames_command_cases table cur name opening closing content more span with
        ⟨d, -, rfl, -, hr⟩ | ⟨d, -, -, hr⟩ | ⟨base, -, hr⟩ | ⟨-, hr⟩
      · rw [hr, Option.mem_some_iff] at hc
        exact hc ▸ (hcur d rfl).withSubscript table content
      · simp [hr] at hc
      · rw [hr, Option.mem_some_iff] at hc
        exact hc ▸ Candidate.sound_ofBase base
      · simp [hr] at hc

/-- A base shows the symbols of the arguments that it is made of. -/
theorem shows_commandBase (horderly : table.Orderly) {name : String}
    {opening closing : String} {content : List Node} {more : List Argument}
    {span : Option Span} {base s : List Char}
    (hfits : nodeFits table (.command name (.mk opening closing content :: more) span))
    (hbase : commandBase? table name content = some base)
    (hs : s ∈ argumentsSymbols table.isLetter (.mk opening closing content :: more)) :
    Shows [base] s := by
  simp only [nodeFits, argumentsFit] at hfits
  obtain ⟨hletter, hfirst, hcontent, -⟩ := hfits
  have hname : table.isLetter name = false := by
    by_contra h
    simpa using hletter (by simpa using h)
  unfold commandBase? at hbase
  simp only [hname, Bool.false_eq_true, if_false] at hbase
  split_ifs at hbase with hdecorator
  obtain rfl := Option.some.inj hbase
  obtain rfl : more = [] := by simpa using hfirst (by simp [hdecorator])
  have hs : s ∈ nodesSymbols table.isLetter content := by
    simpa [argumentsSymbols] using hs
  refine .inr ⟨_, List.mem_singleton_self _, ?_, .inr (.inr (by simp [braced]))⟩
  simpa [braced] using infix_middle (infix_nodesWritten horderly content hcontent hs)
    ('\\' :: (name.toList ++ ['{'])) ['}']

mutual

/-- A node hands on what the candidate in front of it shows, and shows its own
symbols. -/
theorem nodeNames_shows (horderly : table.Orderly) {s : List Char} : (n : Node) →
    (cur : Option Candidate) → nodeFits table n → (∀ c ∈ cur, c.Sound) →
    (Shows (flush cur) s ∨ s ∈ n.symbols table.isLetter) →
      Shows ((nodeNames table cur n).1 ++ flush (nodeNames table cur n).2) s
  | .text [] _, cur, _, _, hs => by simpa [nodeNames, Node.symbols, flush] using hs
  | .text [c] _, cur, _, _, hs => by
      rw [nodeNames]
      refine .append_of_or hs fun hs => .inl ?_
      obtain ⟨d, ⟨hd, hc⟩, rfl⟩ : ∃ d, (d ∈ [c] ∧ d.isAlpha = true) ∧ [d] = s := by
        simpa only [Node.symbols, List.mem_map, List.mem_filter] using hs
      obtain rfl := List.mem_singleton.mp hd
      simp [hc, flush, Candidate.ofBase]
  | .text (c :: d :: cs) _, cur, _, _, hs => by
      rw [nodeNames, flush, List.append_nil]
      · exact .append_of_or hs fun hs => .inl hs
      · simp
  | .blank _ _, cur, _, _, hs => by simpa [nodeNames, Node.symbols, flush] using hs
  | .comment _ _, cur, _, _, hs => by simpa [nodeNames, Node.symbols, flush] using hs
  | .group children _, cur, hfits, _, hs => by
      simp only [nodeFits] at hfits
      rw [nodeNames, flush, List.append_nil]
      exact .append_of_or hs fun hs =>
        nodesNames_shows horderly children none hfits (by simp) (.inr hs)
  | .command name [] _, cur, _, _, hs => by
      rw [nodeNames]
      refine .append_of_or hs fun hs => .inl ?_
      cases hletter : table.isLetter name with
      | false => simp [Node.symbols, argumentsSymbols, hletter] at hs
      | true => simpa [Node.symbols, argumentsSymbols, hletter, flush, Candidate.ofBase]
          using hs
  | .command name (.mk opening closing content :: more) span, cur, hfits, hcur, hs => by
      rw [symbols_command_cons hfits] at hs
      have hbase {base : List Char} (heq : commandBase? table name content = some base)
          (hs : s ∈ argumentsSymbols table.isLetter
            (.mk opening closing content :: more)) :
          Shows [base] s := shows_commandBase horderly hfits heq hs
      simp only [nodeFits, argumentsFit] at hfits
      obtain ⟨-, hfirst, hcontent, hmore⟩ := hfits
      have hnested : ∀ s ∈ nodesSymbols table.isLetter content,
          Shows (nodesNames table none content) s :=
        fun s hs => nodesNames_shows horderly content none hcontent (by simp) (.inr hs)
      -- A script mark has no second argument.
      have hsingle (hname : isScriptName name = true) :
          argumentsSymbols table.isLetter (.mk opening closing content :: more) =
            nodesSymbols table.isLetter content := by
        obtain rfl : more = [] := by simpa using hfirst (by simp [hname])
        simp [argumentsSymbols]
      rcases nodeNames_command_cases table cur name opening closing content more span with
        ⟨c, rfl, rfl, htakes, hr⟩ | ⟨c, rfl, rfl, hr⟩ | ⟨base, heq, hr⟩ | ⟨-, hr⟩
      · rw [hsingle (by decide)] at hs
        rw [hr]
        exact c.shows_withSubscript horderly hcontent (hcur c rfl) htakes hs
      · rw [hsingle (by decide)] at hs
        rw [hr, flush, List.append_nil]
        exact c.shows_withSuperscript horderly hcontent hnested hs
      · rw [hr]
        exact .append_of_or hs (hbase heq)
      · rw [hr, flush, List.append_nil]
        refine .append_of_or hs fun hs => ?_
        rw [argumentsSymbols, List.mem_append] at hs
        exact Shows.append_iff.mpr
          (hs.imp (hnested s) (argumentsNames_shows horderly more hmore))

theorem nodesNames_shows (horderly : table.Orderly) {s : List Char} : (ns : List Node) →
    (cur : Option Candidate) → nodesFit table ns → (∀ c ∈ cur, c.Sound) →
    (Shows (flush cur) s ∨ s ∈ nodesSymbols table.isLetter ns) →
      Shows (nodesNames table cur ns) s
  | [], cur, _, _, hs => by simpa [nodesNames, nodesSymbols] using hs
  | n :: ns, cur, hfits, hcur, hs => by
      simp only [nodesFit] at hfits
      have hrest := nodesNames_shows horderly (s := s) ns
        (nodeNames table cur n).2 hfits.2
        (nodeNames_sound hcur n)
      rw [nodesSymbols, List.mem_append, ← or_assoc] at hs
      rw [nodesNames]
      rcases hs with hs | hs
      · rcases Shows.append_iff.mp (nodeNames_shows horderly n cur hfits.1 hcur hs)
          with hs | hs
        · exact hs.append_left _
        · exact (hrest (.inl hs)).append_right _
      · exact (hrest (.inr hs)).append_right _

/-- Every symbol of arguments is in one of their names. -/
theorem argumentsNames_shows (horderly : table.Orderly) {s : List Char} :
    (args : List Argument) → argumentsFit table args →
      s ∈ argumentsSymbols table.isLetter args →
      Shows (argumentsNames table args) s
  | [], _, hs => by simp [argumentsSymbols] at hs
  | .mk _ _ content :: rest, hfits, hs => by
      simp only [argumentsFit] at hfits
      rw [argumentsSymbols, List.mem_append] at hs
      rw [argumentsNames]
      rcases hs with hs | hs
      · exact (nodesNames_shows horderly content none hfits.1 (by simp)
          (.inr hs)).append_left _
      · exact (argumentsNames_shows horderly rest hfits.2 hs).append_right _

end

/-! ### How names begin -/

/-- A name begins with one of the given texts. -/
def Begins (stems : List (List Char)) (name : List Char) : Prop :=
  ∃ s ∈ stems, s <+: name

theorem Begins.trans {stems : List (List Char)} {name longer : List Char}
    (h : Begins stems name) (hname : name <+: longer) : Begins stems longer := by
  obtain ⟨s, hs, hprefix⟩ := h
  exact ⟨s, hs, hprefix.trans hname⟩

theorem prefix_commandBase {name : String} {content : List Node} {base : List Char}
    (h : commandBase? table name content = some base) :
    table.startsName name = true ∧ '\\' :: name.toList <+: base := by
  unfold commandBase? at h
  split_ifs at h with hletter hdecorator
  · obtain rfl := Option.some.inj h
    exact ⟨by simp [CommandTable.startsName, hletter], List.prefix_rfl⟩
  · obtain rfl := Option.some.inj h
    exact ⟨by simp [CommandTable.startsName, hdecorator],
      braced (nodesWritten table content), by simp⟩

theorem Candidate.begins_withSuperscript {c : Candidate} {content : List Node}
    {stems nested : List (List Char)} (hc : Begins stems c.identity)
    (hnested : ∀ name ∈ nested, Begins stems name) :
    ∀ name ∈ c.withSuperscript table content nested, Begins stems name := by
  have hsingle : ∀ name ∈ [c.identity], Begins stems name := by simpa using hc
  have hboth : ∀ name ∈ c.identity :: nested, Begins stems name :=
    List.forall_mem_cons.mpr ⟨hc, hnested⟩
  unfold Candidate.withSuperscript
  split
  · exact hsingle
  · exact hsingle
  · split_ifs
    · simpa using hc.trans (List.prefix_append _ _)
    · exact hboth
  · exact hboth

theorem Candidate.base_withSubscript (c : Candidate) (content : List Node) :
    (c.withSubscript table content).base = c.base := by
  unfold Candidate.withSubscript
  split_ifs <;> rfl

section Begin

variable {stems : List (List Char)}

/-- A candidate that is given up begins with its base. -/
theorem begins_flush {cur : Option Candidate} (hsound : ∀ c ∈ cur, c.Sound)
    (hcur : ∀ c ∈ cur, Begins stems c.base) :
    ∀ name ∈ flush cur, Begins stems name := by
  cases cur with
  | none => simp [flush]
  | some c => simpa [flush] using (hcur c rfl).trans (hsound c rfl).grows

mutual

/-- A node completes names, and leaves a candidate, that begin like the candidate in
front of it or like one of the symbols of the node. -/
theorem nodeNames_begin : (n : Node) → (cur : Option Candidate) → (∀ c ∈ cur, c.Sound) →
    (∀ c ∈ cur, Begins stems c.base) → n.symbols table.startsName ⊆ stems →
      (∀ name ∈ (nodeNames table cur n).1, Begins stems name) ∧
        ∀ c ∈ (nodeNames table cur n).2, Begins stems c.base
  | .text [] _, cur, hsound, hcur, _ => by
      simpa [nodeNames] using begins_flush hsound hcur
  | .text [c] _, cur, hsound, hcur, hstems => by
      refine ⟨by simpa only [nodeNames] using begins_flush hsound hcur, ?_⟩
      intro d hd
      obtain ⟨hc, rfl⟩ : c.isAlpha = true ∧ Candidate.ofBase [c] = d := by
        simpa [nodeNames] using hd
      exact ⟨[c], hstems (by simp [Node.symbols, hc]), List.prefix_rfl⟩
  | .text (c :: d :: cs) _, cur, hsound, hcur, hstems => by
      rw [nodeNames]
      · refine ⟨List.forall_mem_append.mpr ⟨begins_flush hsound hcur, ?_⟩, by simp⟩
        intro name hname
        exact ⟨name, hstems hname, List.prefix_rfl⟩
      · simp
  | .blank _ _, cur, hsound, hcur, _ => by
      simpa [nodeNames] using begins_flush hsound hcur
  | .comment _ _, cur, hsound, hcur, _ => by
      simpa [nodeNames] using begins_flush hsound hcur
  | .group children _, cur, hsound, hcur, hstems => by
      rw [nodeNames]
      rw [Node.symbols] at hstems
      exact ⟨List.forall_mem_append.mpr ⟨begins_flush hsound hcur,
        nodesNames_begin children none (by simp) (by simp) hstems⟩, by simp⟩
  | .command name [] _, cur, hsound, hcur, hstems => by
      refine ⟨by simpa only [nodeNames] using begins_flush hsound hcur, ?_⟩
      intro d hd
      obtain ⟨hletter, rfl⟩ : table.isLetter name = true ∧
          Candidate.ofBase ('\\' :: name.toList) = d := by simpa [nodeNames] using hd
      exact ⟨'\\' :: name.toList,
        hstems (by simp [Node.symbols, CommandTable.startsName, hletter]),
        List.prefix_rfl⟩
  | .command name (.mk opening closing content :: more) span, cur,
      hsound, hcur, hstems => by
      rw [Node.symbols, argumentsSymbols, List.append_subset,
        List.append_subset] at hstems
      obtain ⟨hname, hcontent, hmore⟩ := hstems
      have hnested : ∀ name ∈ nodesNames table none content, Begins stems name :=
        nodesNames_begin content none (by simp) (by simp) hcontent
      -- A command extends the name at hand with a subscript or a superscript, starts
      -- a name of its own, or ends the name at hand.
      rcases nodeNames_command_cases table cur name opening closing content more span with
        ⟨c, -, rfl, -, hr⟩ | ⟨c, -, rfl, hr⟩ | ⟨base, hbase, hr⟩ | ⟨-, hr⟩
      · rw [hr]
        refine ⟨by simp, fun d hd => ?_⟩
        obtain rfl := Option.mem_some_iff.mp hd
        rw [c.base_withSubscript]
        exact hcur c rfl
      · rw [hr]
        exact ⟨c.begins_withSuperscript
          ((hcur c rfl).trans (hsound c rfl).grows) hnested, by simp⟩
      · rw [hr]
        refine ⟨begins_flush hsound hcur, fun d hd => ?_⟩
        obtain rfl := Option.mem_some_iff.mp hd
        obtain ⟨hstarts, hprefix⟩ := prefix_commandBase hbase
        exact ⟨_, hname (by simp [hstarts]), hprefix⟩
      · rw [hr]
        exact ⟨List.forall_mem_append.mpr
          ⟨begins_flush hsound hcur, List.forall_mem_append.mpr
            ⟨hnested, argumentsNames_begin more hmore⟩⟩, by simp⟩

/-- Every name in nodes begins with a symbol of theirs. -/
theorem nodesNames_begin :
    (ns : List Node) → (cur : Option Candidate) → (∀ c ∈ cur, c.Sound) →
      (∀ c ∈ cur, Begins stems c.base) → nodesSymbols table.startsName ns ⊆ stems →
      ∀ name ∈ nodesNames table cur ns, Begins stems name
  | [], cur, hsound, hcur, _ => by
      rw [nodesNames]
      exact begins_flush hsound hcur
  | n :: ns, cur, hsound, hcur, hstems => by
      rw [nodesSymbols, List.append_subset] at hstems
      obtain ⟨hout, hnext⟩ := nodeNames_begin n cur hsound hcur hstems.1
      rw [nodesNames]
      exact List.forall_mem_append.mpr
        ⟨hout, nodesNames_begin ns _ (nodeNames_sound hsound n) hnext hstems.2⟩

/-- Every name in arguments begins with a symbol of theirs. -/
theorem argumentsNames_begin : (args : List Argument) →
    argumentsSymbols table.startsName args ⊆ stems →
      ∀ name ∈ argumentsNames table args, Begins stems name
  | [], _ => by simp [argumentsNames]
  | .mk _ _ content :: rest, hstems => by
      rw [argumentsSymbols, List.append_subset] at hstems
      rw [argumentsNames]
      exact List.forall_mem_append.mpr
        ⟨nodesNames_begin content none (by simp) (by simp) hstems.1,
          argumentsNames_begin rest hstems.2⟩

end

end Begin

/-! ### The symbols of a source -/

/-- A source that is not too deep has the variables of its nodes. -/
theorem variablesOfSource_eq {source : String}
    (h : (parse table source).depth ≤ nestingLimit) :
    variablesOfSource table source =
      variablesOfNodes table (parse table source).nodes := by
  have hok : parseWithin table source = .ok (parse table source) := if_pos h
  rw [variablesOfSource, hok]

/-- Every symbol that is no constant shows in a variable. -/
theorem exists_variable_of_symbol (horderly : table.Orderly)
    {source : String} {s : List Char}
    (hs : s ∈ lexemesSymbols table.isLetter (lex source.toList))
    (hconstant : table.isConstant (String.ofList s) = false) :
    ∃ v ∈ variablesOfNodes table (parse table source).nodes, s <:+: v.toList := by
  rw [← parse_nodesSymbols (wordNames_isLetter horderly) table source] at hs
  have hshows := nodesNames_shows horderly _ none
    (parse_fits horderly source) (by simp) (.inr hs)
  rcases hshows with hname | ⟨name, hname, hinfix, hcompound⟩
  · refine ⟨String.ofList s, mem_variablesOfNodes.mpr ⟨?_, hconstant⟩, ?_⟩
    · rwa [String.toList_ofList]
    · simp only [String.toList_ofList, List.infix_rfl]
  · refine ⟨String.ofList name, mem_variablesOfNodes.mpr ⟨?_, ?_⟩, ?_⟩
    · rwa [String.toList_ofList]
    · -- A constant has no scripts and no decorations.
      by_contra h
      obtain ⟨hsub, hsup, hbrace⟩ := horderly.constants _ (by simpa using h)
      rw [String.toList_ofList] at hsub hsup hbrace
      rcases hcompound with h | h | h <;> contradiction
    · rwa [String.toList_ofList]

/-- Every variable begins with a symbol. -/
theorem exists_symbol_of_variable (horderly : table.Orderly) {source v : String}
    (hv : v ∈ variablesOfNodes table (parse table source).nodes) :
    ∃ l ∈ lex source.toList, l.isSymbol table.startsName = true ∧
      l.text <+: v.toList := by
  obtain ⟨hname, -⟩ := mem_variablesOfNodes.mp hv
  obtain ⟨s, hs, hprefix⟩ :=
    nodesNames_begin _ none (by simp) (by simp) (List.Subset.refl _) _ hname
  rw [parse_nodesSymbols horderly.names, mem_lexemesSymbols] at hs
  obtain ⟨l, hl, hsymbol, rfl⟩ := hs
  exact ⟨l, hl, hsymbol, hprefix⟩

theorem isConstant_standard_iff (name : String) :
    CommandTable.standard.isConstant name = true ↔
      name = "e" ∨ name = "i" ∨ name = "\\pi" := by
  simp [CommandTable.isConstant, CommandTable.standard]

/-- The symbols that are constants are the letters `e` and `i` and the command
`\pi`. -/
theorem not_isConstant_of_symbol {l : Lexeme} (hl : l.Proper)
    (h : (l.kind = .letter ∧ l.text ≠ ['e'] ∧ l.text ≠ ['i']) ∨
      (l.kind = .controlWord ∧ CommandTable.standard.isLetter l.name =
        true ∧ l.name ≠ "pi")) :
    CommandTable.standard.isConstant (String.ofList l.text) = false := by
  by_contra hconstant
  rw [Bool.not_eq_false, isConstant_standard_iff] at hconstant
  have htext : l.text = ['e'] ∨ l.text = ['i'] ∨ l.text = ['\\', 'p', 'i'] := by
    simpa [← String.toList_inj] using hconstant
  rcases h with ⟨hkind, he, hi⟩ | ⟨hkind, -, hpi⟩
  · obtain ⟨kind, text⟩ := l
    obtain rfl : kind = .letter := hkind
    obtain ⟨c, rfl, -⟩ := hl
    rcases htext with h | h | h
    · exact he h
    · exact hi h
    · simp at h
  · rw [text_eq_of_controlWord hl hkind] at htext
    have hname : l.name.toList = ['p', 'i'] := by simpa using htext
    exact hpi (String.toList_inj.mp hname)

/-- **Variables neither lose nor invent a symbol.**  Every letter but `e` and `i`,
and every command that names a letter but `\pi`, stands in a variable of the source;
and every variable begins with a letter, a command that names a letter, or a
decorator, of the source. -/
theorem symbols_of_variables (source : String)
    (hdepth : (parse .standard source).depth ≤ nestingLimit) :
    (∀ t ∈ tokenize source,
      (t.lexeme.kind = .letter ∧ t.lexeme.text ≠ ['e'] ∧ t.lexeme.text ≠ ['i']) ∨
        (t.lexeme.kind = .controlWord ∧
          CommandTable.standard.isLetter t.lexeme.name = true ∧
          t.lexeme.name ≠ "pi") →
      ∃ v ∈ variablesOfSource .standard source, t.lexeme.text <:+: v.toList) ∧
    ∀ v ∈ variablesOfSource .standard source, ∃ t ∈ tokenize source,
      (t.lexeme.kind = .letter ∨
        (t.lexeme.kind = .controlWord ∧
          (CommandTable.standard.isLetter t.lexeme.name = true ∨
          CommandTable.standard.isDecorator t.lexeme.name = true))) ∧
      t.lexeme.text <+: v.toList := by
  have horderly := CommandTable.standard_orderly
  rw [variablesOfSource_eq hdepth]
  refine ⟨fun t ht hsymbol => ?_, fun v hv => ?_⟩
  · have hlex : t.lexeme ∈ lex source.toList := mem_lex_iff.mpr ⟨t, ht, rfl⟩
    have hproper := lex_proper source.toList t.lexeme hlex
    refine exists_variable_of_symbol horderly
      (mem_lexemesSymbols.mpr ⟨t.lexeme, hlex, ?_, rfl⟩) ?_
    · rcases hsymbol with ⟨hkind, -⟩ | ⟨hkind, hletter, -⟩ <;>
        simp_all [Lexeme.isSymbol]
    · exact not_isConstant_of_symbol hproper hsymbol
  · obtain ⟨l, hl, hsymbol, hprefix⟩ := exists_symbol_of_variable horderly hv
    obtain ⟨t, ht, rfl⟩ := mem_lex_iff.mp hl
    refine ⟨t, ht, ?_, hprefix⟩
    simpa [Lexeme.isSymbol, CommandTable.startsName] using hsymbol

/-- A constant that is raised to a decorated letter, and a constant with a
subscript. -/
theorem symbols_of_variables_raised :
    (parse .standard "e^\x7b\\bar y x\x7d\\pi_\\beta").depth ≤ nestingLimit ∧
      ⟨⟨.controlWord, ['\\', 'b', 'e', 't', 'a']⟩, 16⟩ ∈
        tokenize "e^\x7b\\bar y x\x7d\\pi_\\beta" ∧
      (∃ v ∈ variablesOfSource .standard "e^\x7b\\bar y x\x7d\\pi_\\beta",
        ['\\', 'b', 'e', 't', 'a'] <:+: v.toList) ∧
      "\\bar\x7by\x7d" ∈ variablesOfSource .standard "e^\x7b\\bar y x\x7d\\pi_\\beta" ∧
      ∃ t ∈ tokenize "e^\x7b\\bar y x\x7d\\pi_\\beta",
        (t.lexeme.kind = .letter ∨
          (t.lexeme.kind = .controlWord ∧
            (CommandTable.standard.isLetter t.lexeme.name = true ∨
            CommandTable.standard.isDecorator t.lexeme.name = true))) ∧
        t.lexeme.text <+: "\\bar\x7by\x7d".toList := by
  have hdepth : (parse .standard "e^\x7b\\bar y x\x7d\\pi_\\beta").depth ≤
      nestingLimit := by
    decide +kernel
  have htoken : ⟨⟨.controlWord, ['\\', 'b', 'e', 't', 'a']⟩, 16⟩ ∈
      tokenize "e^\x7b\\bar y x\x7d\\pi_\\beta" := by decide +kernel
  have hvariable : "\\bar\x7by\x7d" ∈
      variablesOfSource .standard "e^\x7b\\bar y x\x7d\\pi_\\beta" := by
    decide +kernel
  obtain ⟨hshown, hbegin⟩ := symbols_of_variables _ hdepth
  exact ⟨hdepth, htoken, hshown _ htoken (by decide +kernel),
    hvariable, hbegin _ hvariable⟩

end Variable

end Formulary
