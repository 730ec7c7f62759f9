import Formulary.Proofs.Escapes
import Formulary.Proofs.GroupBodies

/-!
# The braces of written markup

What is written for nodes goes between braces when it becomes part of a name, and
then it matters whether its own braces match.  They do, whatever the nodes are, with
one exception: a lone backslash at the end of a source takes in the brace that is put
behind it.

Braces can be counted one character at a time if a backslash hides the character
behind it.  This counting says of a text what reading needs to know of it, and it
goes through texts that are put together one after the other, as written markup is.

* `nesting?` counts, and `Balanced` says of a text that it leaves the count as it is.
* `matchBraces_of_nesting?` ties the count to the matching of the braces of lexemes.
* `treesShut` is the induction over the trees, with the exception built into `Shuts`.
* `balanced_written` is the case of a whole source.
-/

namespace Formulary.Variable

open Formulary.Markup

/-! ### Counting braces -/

/-- How deep in braces a text ends that starts at a given depth.  A backslash hides
the character behind it.  There is no depth if a brace closes nothing, if a comment
starts, or if the text ends in a lone backslash. -/
def nesting? : Nat → List Char → Option Nat
  | depth, [] => some depth
  | _, ['\\'] => none
  | depth, '\\' :: _ :: cs => nesting? depth cs
  | _, '%' :: _ => none
  | depth, '{' :: cs => nesting? (depth + 1) cs
  | 0, '}' :: _ => none
  | depth + 1, '}' :: cs => nesting? depth cs
  | depth, _ :: cs => nesting? depth cs

@[simp] theorem nesting?_nil (depth : Nat) : nesting? depth [] = some depth := by
  simp [nesting?]

@[simp] theorem nesting?_lone (depth : Nat) : nesting? depth ['\\'] = none := by
  simp [nesting?]

@[simp] theorem nesting?_escape (depth : Nat) (c : Char) (cs : List Char) :
    nesting? depth ('\\' :: c :: cs) = nesting? depth cs := by simp [nesting?]

@[simp] theorem nesting?_comment (depth : Nat) (cs : List Char) :
    nesting? depth ('%' :: cs) = none := by simp [nesting?]

@[simp] theorem nesting?_open (depth : Nat) (cs : List Char) :
    nesting? depth ('{' :: cs) = nesting? (depth + 1) cs := by simp [nesting?]

@[simp] theorem nesting?_close_zero (cs : List Char) :
    nesting? 0 ('}' :: cs) = none := by
  simp [nesting?]

@[simp] theorem nesting?_close_succ (depth : Nat) (cs : List Char) :
    nesting? (depth + 1) ('}' :: cs) = nesting? depth cs := by simp [nesting?]

/-- Every other character counts for nothing. -/
theorem nesting?_cons (depth : Nat) {c : Char} (cs : List Char)
    (h : c ∉ ['\\', '%', '{', '}']) : nesting? depth (c :: cs) = nesting? depth cs := by
  simp only [List.mem_cons, List.not_mem_nil, or_false, not_or] at h
  obtain ⟨h1, h2, h3, h4⟩ := h
  rw [nesting?.eq_def]
  split <;> simp_all

/-! ### Balanced texts -/

/-- A text whose braces match and which does not take in anything that follows it. -/
def Balanced (w : List Char) : Prop :=
  ∀ depth rest, nesting? depth (w ++ rest) = nesting? depth rest

namespace Balanced

variable {w u : List Char}

theorem nil : Balanced [] := fun _ _ => rfl

theorem append (hw : Balanced w) (hu : Balanced u) : Balanced (w ++ u) := by
  intro depth rest
  rw [List.append_assoc, hw, hu]

theorem char {c : Char} (h : c ∉ ['\\', '%', '{', '}']) : Balanced [c] :=
  fun depth rest => nesting?_cons depth rest h

/-- Text without any of the characters that count is balanced. -/
theorem chars (h : ∀ c ∈ w, c ∉ ['\\', '%', '{', '}']) : Balanced w := by
  induction w with
  | nil => exact nil
  | cons c cs ih =>
      exact (char (h c (by simp))).append (ih fun d hd => h d (by simp [hd]))

/-- So is a backslash with the character that it hides. -/
theorem escape (c : Char) : Balanced ['\\', c] :=
  fun depth rest => nesting?_escape depth c rest

/-- Braces around a balanced text leave it balanced. -/
theorem braced (h : Balanced w) : Balanced (braced w) := by
  intro depth rest
  simp [Variable.braced, h (depth + 1)]

/-- A script with a balanced content is balanced. -/
theorem formatModifier (h : Balanced w) : Balanced (formatModifier w) := by
  unfold Variable.formatModifier
  split
  · split_ifs
    · exact h
    · exact h.braced
  · exact h.braced

/-- A balanced text ends as deep as it starts. -/
theorem nesting?_eq (h : Balanced w) (depth : Nat) : nesting? depth w = some depth := by
  simpa using h depth []

end Balanced

/-! ### The texts of lexemes -/

/-- A letter is not a character that counts. -/
theorem not_mem_marks_of_isAlpha {c : Char} (h : c.isAlpha = true) :
    c ∉ ['\\', '%', '{', '}'] := by
  intro hc
  simp only [List.mem_cons, List.not_mem_nil, or_false] at hc
  rcases hc with rfl | rfl | rfl | rfl <;> exact absurd h (by decide)

theorem not_mem_marks_of_isBlank {c : Char} (h : Text.isBlank c = true) :
    c ∉ ['\\', '%', '{', '}'] := by
  intro hc
  simp only [List.mem_cons, List.not_mem_nil, or_false] at hc
  rcases hc with rfl | rfl | rfl | rfl <;> exact absurd h (by decide)

/-- Nor is a character that is read as text, unless it is a lone backslash. -/
theorem not_mem_marks_of_isText {c : Char} (h : (Lexeme.startKind c).isText = true)
    (hback : c ≠ '\\') : c ∉ ['\\', '%', '{', '}'] := by
  intro hc
  simp only [List.mem_cons, List.not_mem_nil, or_false] at hc
  rcases hc with rfl | rfl | rfl | rfl
  · exact hback rfl
  all_goals exact absurd h (by decide)

/-- A control sequence is balanced: its first character is hidden and the others are
letters. -/
theorem balanced_control {c : Char} {cs : List Char} (h : ∀ d ∈ cs, d.isAlpha = true) :
    Balanced ('\\' :: c :: cs) :=
  (Balanced.escape c).append
    (Balanced.chars fun d hd => not_mem_marks_of_isAlpha (h d hd))

/-- A lexeme is balanced if it is no brace, no comment and no lone backslash. -/
theorem balanced_text {l : Lexeme} (hl : l.Proper) (hplain : l.Plain)
    (hcomment : l.kind ≠ .comment) (hlone : l ≠ ⟨.other, ['\\']⟩) :
    Balanced l.text := by
  obtain ⟨kind, text⟩ := l
  have hsingle : (∃ c, text = [c] ∧ Lexeme.startKind c = kind) → Balanced text := by
    rintro ⟨c, rfl, rfl⟩
    refine Balanced.char fun hc => ?_
    simp only [List.mem_cons, List.not_mem_nil, or_false] at hc
    rcases hc with rfl | rfl | rfl | rfl
    · exact hlone (by decide)
    · exact hcomment (by decide)
    · exact hplain.1 (by decide)
    · exact hplain.2 (by decide)
  cases kind with
  | comment => exact absurd rfl hcomment
  | blank => exact Balanced.chars fun c hc => not_mem_marks_of_isBlank (hl.2 c hc)
  | controlWord =>
      obtain ⟨cs, rfl, hne, hcs⟩ := hl
      obtain ⟨c, cs, rfl⟩ := List.exists_cons_of_ne_nil hne
      exact balanced_control fun d hd => hcs d (by simp [hd])
  | controlSymbol =>
      obtain ⟨c, rfl, -⟩ := hl
      exact Balanced.escape c
  | _ => exact hsingle hl

/-- **Counting the braces of a text comes to the same as matching those of its
lexemes.** Where the text has a depth, there are no comments and no lone backslash
among the lexemes, no closing brace is a stray, and as many braces stay open as the
depth says. -/
theorem matchBraces_of_nesting? {ls : List Lexeme} (hcut : IsCut ls) (start : Nat)
    (m : BraceMatch) {depth : Nat}
    (h : nesting? m.opened.length (lexemesText ls) = some depth) :
    (∀ l ∈ ls, l.kind ≠ .comment ∧ l ≠ ⟨.other, ['\\']⟩) ∧
      ∃ pairs opened,
        (placeFrom start ls).foldl BraceMatch.step m = ⟨pairs, m.strays, opened⟩ ∧
          opened.length = depth := by
  induction ls generalizing start m with
  | nil => exact ⟨by simp, m.pairs, m.opened, rfl, by simpa using h⟩
  | cons l ls ih =>
      obtain ⟨hl, hapart, hls⟩ := isCut_cons.mp hcut
      rw [lexemesText_cons] at h
      rw [placeFrom, List.foldl_cons]
      have hcomment : l.kind ≠ .comment := by
        intro hkind
        obtain ⟨kind, text⟩ := l
        obtain rfl : kind = .comment := hkind
        obtain ⟨cs, rfl, -⟩ := hl
        simp at h
      have hlone : l ≠ ⟨.other, ['\\']⟩ := by
        rintro rfl
        cases ls with
        | nil => simp at h
        | cons m ls =>
            have hm := apart_iff_of_proper (l := ⟨.other, ['\\']⟩) (isCut_cons.mp hls).1
            exact (hm.mp (hapart m rfl)).2.2.2 rfl
      -- One lexeme is taken: a brace changes the depth, and nothing else does.
      have hstep : ∃ m' : BraceMatch, m.step ⟨l, start⟩ = m' ∧ m'.strays = m.strays ∧
          nesting? m'.opened.length (lexemesText ls) = some depth := by
        by_cases hopen : l.kind = .openBrace
        · obtain rfl : l = Lexeme.start '{' := hl.eq_start_of_mark (by simp) hopen
          refine ⟨_, rfl, rfl, ?_⟩
          simpa [BraceMatch.step, hopen] using h
        by_cases hclose : l.kind = .closeBrace
        · obtain rfl : l = Lexeme.start '}' := hl.eq_start_of_mark (by simp) hclose
          obtain ⟨pairs, strays, opened⟩ := m
          cases opened with
          | nil => simp at h
          | cons p below =>
              refine ⟨_, rfl, ?_, ?_⟩
              · simp [BraceMatch.step, hclose]
              · simpa [BraceMatch.step, hclose] using h
        · rw [BraceMatch.step_of_plain (t := ⟨l, start⟩) ⟨hopen, hclose⟩]
          refine ⟨m, rfl, rfl, ?_⟩
          rwa [balanced_text hl ⟨hopen, hclose⟩ hcomment hlone] at h
      obtain ⟨m', hm', hstrays, hdepth⟩ := hstep
      obtain ⟨hall, pairs, opened, hfold, hlength⟩ :=
        ih hls (start + l.text.length) m' hdepth
      rw [hm', hfold, hstrays]
      exact ⟨List.forall_mem_cons.mpr ⟨⟨hcomment, hlone⟩, hall⟩, pairs, opened, rfl,
        hlength⟩


/-! ### What is written for lexemes -/

/-- The lexeme that a lone backslash is. -/
def lone : Lexeme := ⟨.other, ['\\']⟩

/-- What is written for lexemes is balanced, a lone backslash excepted, which takes
in the brace that is put behind it. -/
def Shuts (ls : List Lexeme) (w : List Char) : Prop :=
  Balanced (if lone ∈ ls then w ++ ['}'] else w)

/-- Nothing follows a lone backslash. -/
theorem eq_nil_of_lone {ls ms : List Lexeme} (hcut : IsCut (ls ++ ms)) (h : lone ∈ ls) :
    ms = [] := by
  cases ms with
  | nil => rfl
  | cons m ms =>
      obtain ⟨before, after, rfl⟩ := List.append_of_mem h
      rw [List.append_assoc, List.cons_append] at hcut
      obtain ⟨-, hapart, hrest⟩ := isCut_cons.mp hcut.right_of_append
      obtain ⟨n, hn⟩ : ∃ n, n ∈ (after ++ m :: ms).head? := by
        cases after <;> simp
      exact absurd rfl ((apart_iff_of_proper (hrest.head_proper hn)).mp
        (hapart n hn)).2.2.2

namespace Shuts

variable {ls ms : List Lexeme} {w u : List Char}

/-- Without a lone backslash, balanced text is all that is asked for. -/
theorem of_balanced (hls : lone ∉ ls) (h : Balanced w) : Shuts ls w := by
  rwa [Shuts, if_neg hls]

theorem balanced (h : Shuts ls w) (hls : lone ∉ ls) : Balanced w := by
  rwa [Shuts, if_neg hls] at h

/-- With a lone backslash, the text is balanced once there is a brace behind it. -/
theorem balanced_append (h : Shuts ls w) (hls : lone ∈ ls) : Balanced (w ++ ['}']) := by
  rwa [Shuts, if_pos hls] at h

/-- Only the lone backslash among the lexemes matters. -/
theorem congr (h : Shuts ls w) (hls : lone ∈ ls ↔ lone ∈ ms) : Shuts ms w := by
  simpa only [Shuts, hls] using h

/-- What is written for the first of some lexemes does not disturb the others. -/
theorem prepend (h : Balanced w) (hu : Shuts ls u) : Shuts ls (w ++ u) := by
  unfold Shuts at hu ⊢
  split_ifs at hu ⊢
  · rw [List.append_assoc]
    exact h.append hu
  · exact h.append hu

/-- What is written for lexemes that follow one another. -/
theorem append (hw : Shuts ls w) (hu : Shuts ms u)
    (hend : lone ∈ ls → ms = [] ∧ u = []) :
    Shuts (ls ++ ms) (w ++ u) := by
  by_cases hls : lone ∈ ls
  · obtain ⟨rfl, rfl⟩ := hend hls
    simpa using hw
  · exact (prepend (hw.balanced hls) hu).congr (by simp [hls])

/-- The brace that a lone backslash takes in may be the closing one. -/
theorem braced (h : Shuts ls w) : Shuts ls (braced w) := by
  by_cases hls : lone ∈ ls
  · have hw := h.balanced_append hls
    rw [Shuts, if_pos hls]
    intro depth rest
    have hinner := hw (depth + 1) ('}' :: rest)
    simpa [Variable.braced] using hinner
  · exact of_balanced hls (h.balanced hls).braced

/-- The form of a script keeps braces matched, since a single digit is no
backslash. -/
theorem formatModifier (h : Shuts ls w) : Shuts ls (formatModifier w) := by
  unfold Variable.formatModifier
  split
  · next c =>
    split_ifs
    · exact h
    · exact h.braced
  · exact h.braced

end Shuts


/-! ### The pieces of trees -/

variable {table : CommandTable}

/-- What is written for the name of a command is balanced. -/
theorem balanced_head {head : Lexeme} (hhead : head.Proper)
    (hkind : head.kind = .controlWord ∨
      head.kind = .controlSymbol ∨ head.kind = .subscript ∨ head.kind = .superscript) :
    Balanced (headWritten head.name) := by
  obtain ⟨kind, text⟩ := head
  unfold headWritten
  split_ifs with hscript
  · simp only [isScriptName, Bool.or_eq_true, decide_eq_true_eq] at hscript
    rcases hscript with h | h <;> rw [h] <;> exact Balanced.char (by decide)
  · rcases hkind with rfl | rfl | hmark
    · obtain ⟨cs, hcs, hne, halpha⟩ := hhead
      obtain rfl : text = '\\' :: cs := hcs
      obtain ⟨c, cs, rfl⟩ := List.exists_cons_of_ne_nil hne
      simpa [Lexeme.name] using balanced_control fun d hd => halpha d (by simp [hd])
    · obtain ⟨c, hc, -⟩ := hhead
      obtain rfl : text = ['\\', c] := hc
      simpa [Lexeme.name] using Balanced.escape c
    · exact absurd (isScriptName_of_mark hhead hmark) hscript

theorem lone_ne_of_isGap {l : Lexeme} (h : l.isGap = true) : lone ≠ l := by
  rintro rfl
  exact absurd h (by decide)

theorem lone_not_mem_marks (enclosure : Enclosure) :
    lone ∉ charLexemes enclosure.opening ∧ lone ∉ charLexemes enclosure.closing := by
  rcases enclosure with _ | (_ | _) | (_ | _) <;> decide

/-- Text is written as it is, and only its last character can be a lone backslash. -/
theorem shuts_text {chars : List Char} {rest : List Lexeme}
    (htext : ∀ c ∈ chars, (Lexeme.startKind c).isText = true)
    (hcut : IsCut (charLexemes chars ++ rest)) : Shuts (charLexemes chars) chars := by
  induction chars with
  | nil => exact .of_balanced (by simp) .nil
  | cons c cs ih =>
      by_cases hc : c = '\\'
      · subst hc
        obtain rfl : cs = [] := by
          have hlone : IsCut ([lone] ++ (charLexemes cs ++ rest)) := hcut
          have hnil := eq_nil_of_lone hlone (List.mem_singleton_self lone)
          simpa [charLexemes] using (List.append_eq_nil_iff.mp hnil).1
        exact Balanced.escape '}'
      · have hbalanced : Balanced [c] :=
          Balanced.char (not_mem_marks_of_isText (htext c (by simp)) hc)
        have htail := ih (fun d hd => htext d (by simp [hd])) (isCut_cons.mp hcut).2.2
        refine (Shuts.prepend hbalanced htail).congr ?_
        have hne : lone ≠ Lexeme.start c := by
          rintro h
          exact hc (by simpa [lone, Lexeme.start] using (congrArg Lexeme.text h).symm)
        simp [hne]

/-- What is written for the contents of arguments, for each on its own. -/
def argsShut (table : CommandTable) : List Arg → Prop
  | [] => True
  | .mk before _ body :: args =>
    lone ∉ before ∧
      (∀ start, Shuts (treesLexemes body)
        (nodesWritten table (treesNodes start body))) ∧
      argsShut table args

/-- An argument with its marks.  A lone backslash leaves no closing bracket. -/
theorem shuts_argument {enclosure : Enclosure} {ls : List Lexeme}
    {w : List Char} (h : Shuts ls w) (hend : lone ∈ ls → enclosure.closing = []) :
    Shuts ls (enclosure.marks.1.toList ++ (w ++ enclosure.marks.2.toList)) := by
  cases enclosure with
  | bare => simpa [Enclosure.marks] using h
  | braces closed => simpa [Enclosure.marks, Variable.braced] using h.braced
  | brackets closed =>
      have hopen : Balanced ['['] := Balanced.char (by decide)
      cases closed with
      | false => simpa [Enclosure.marks] using Shuts.prepend hopen h
      | true =>
          have hls : lone ∉ ls := fun hls => by simpa [Enclosure.closing] using hend hls
          have hclose : Balanced [']'] := Balanced.char (by decide)
          refine Shuts.prepend hopen (.of_balanced hls ?_)
          exact (h.balanced hls).append hclose


/-- No trees are read from no lexemes. -/
theorem eq_nil_of_treesLexemes {scope : Scope} {mode : Mode} {rest : List Lexeme}
    {ts : List Tree} (h : treesRead table scope mode rest ts)
    (hnil : treesLexemes ts = []) : ts = [] := by
  cases ts with
  | nil => rfl
  | cons t ts =>
      simp only [treesRead] at h
      simp [h.1.lexemes_ne_nil] at hnil

theorem eq_nil_of_argsLexemes {mode : Mode} {slots : List Slot} {rest : List Lexeme}
    {missing : Bool} {args : List Arg} (h : argsRead table mode slots rest missing args)
    (hnil : argsLexemes args = []) : args = [] := by
  match args, h, hnil with
  | [], _, _ => rfl
  | .mk before (.brackets closed) body :: args, _,
      hnil => simp [Enclosure.opening] at hnil
  | .mk before (.braces closed) body :: args, _,
      hnil => simp [Enclosure.opening] at hnil
  | .mk before .bare body :: args, h, hnil =>
      simp only [argsRead] at h
      obtain ⟨-, left, hbody, -⟩ := h
      simp [hbody.lexemes_ne_nil] at hnil

/-- Arguments in a row: only the last can have a lone backslash. -/
theorem shuts_arguments {mode : Mode} {slots : List Slot}
    {rest : List Lexeme} {missing : Bool} {args : List Arg}
    (hreads : argsRead table mode slots rest missing args)
    (hcut : IsCut (argsLexemes args ++ rest)) (h : argsShut table args) (start : Nat) :
    Shuts (argsLexemes args) (argumentsWritten table (argsArguments start args)) := by
  induction args generalizing slots start with
  | nil => exact .of_balanced (by simp) .nil
  | cons arg args ih =>
      obtain ⟨before, enclosure, body⟩ := arg
      obtain ⟨-, -, -, left, hargs⟩ := argsRead_cons hreads
      obtain ⟨hbefore, hbody, hrest⟩ := h
      simp only [argsLexemes, List.append_assoc] at hcut
      have hinside := hcut.right_of_append.right_of_append
      have hend (hlone : lone ∈ treesLexemes body) :
          enclosure.closing = [] ∧ args = [] := by
        have hnil := eq_nil_of_lone hinside hlone
        simp only [List.append_eq_nil_iff, charLexemes, List.map_eq_nil_iff] at hnil
        exact ⟨hnil.1, eq_nil_of_argsLexemes hargs hnil.2.1⟩
      have hfirst (k : Nat) := shuts_argument (hbody k) fun hlone => (hend hlone).1
      have htail := ih hargs hinside.right_of_append.right_of_append hrest
      have hboth (k k' : Nat) := (hfirst k).append (htail k') fun hlone => by
        obtain rfl := (hend hlone).2
        exact ⟨rfl, rfl⟩
      simp only [List.append_assoc] at hboth
      rw [argsArguments, argumentsWritten]
      exact (hboth _ _).congr (by simp [hbefore, lone_not_mem_marks])

/-- A command with its arguments.  Of a script mark or a decorator only the first one
is written, and there is no other. -/
theorem shuts_command {head : Lexeme} {args : List Arg} (start : Nat)
    (span : Option Span) (hhead : Balanced (headWritten head.name))
    (hname : lone ≠ head) (hargs : argsShut table args)
    (hwritten : ∀ start,
      Shuts (argsLexemes args) (argumentsWritten table (argsArguments start args)))
    (hsingle : (isScriptName head.name || table.isDecorator head.name) = true →
      args.length ≤ 1) :
    Shuts (head :: argsLexemes args)
      (nodeWritten table (.command head.name (argsArguments start args) span)) := by
  have hcongr {w : List Char} (h : Shuts (argsLexemes args) w) :
      Shuts (head :: argsLexemes args) w := h.congr (by simp [hname])
  refine hcongr ?_
  match args, hargs with
  | [], _ =>
      refine .of_balanced (by simp) ?_
      simpa [argsArguments, nodeWritten, headWritten] using hhead
  | .mk before enclosure body :: args, ⟨hbefore, hbody, _⟩ =>
      have hall := Shuts.prepend hhead (hwritten start)
      have hone (hmarks : (isScriptName head.name || table.isDecorator head.name) =
          true)
          {w : List Char} (hw : Shuts (treesLexemes body) w) :
          Shuts (argsLexemes (.mk before enclosure body :: args))
            (headWritten head.name ++ w) := by
        obtain rfl : args = [] :=
          List.eq_nil_of_length_eq_zero (by simpa using hsingle hmarks)
        exact (Shuts.prepend hhead hw).congr (by simp [hbefore, lone_not_mem_marks])
      rw [argsArguments, nodeWritten]
      split_ifs with hscript hdecorator
      · simpa [headWritten, hscript]
          using hone (by simp [hscript]) (hbody _).formatModifier
      · simpa [headWritten, hscript] using hone (by simp [hdecorator]) (hbody _).braced
      · simpa [headWritten, hscript, argsArguments, argumentsWritten] using hall

/-- A lexeme that is taken as it stands. -/
theorem shuts_atom {l : Lexeme} {rest : List Lexeme}
    (hcut : IsCut ((atom l).lexemes ++ rest)) (hl : l ∈ (atom l).lexemes.head?)
    (hkind : l.kind.isText = true ∨ l.kind = .controlSymbol ∨ l.kind = .controlWord)
    (start : Nat) :
    Shuts (atom l).lexemes (nodeWritten table ((atom l).node start)) := by
  have hproper : l.Proper := hcut.head_proper (by rw [lexemes_atom hl]; rfl)
  rcases hkind with hkind | hkind
  · obtain ⟨c, rfl, hatom⟩ := eq_start_of_atom hl hkind
    rw [hatom] at hcut ⊢
    refine shuts_text (fun d hd => ?_) hcut
    rwa [List.mem_singleton.mp hd]
  · rw [atom, if_pos hkind.symm, Tree.plain, Tree.lexemes, Markup.Tree.node]
    refine shuts_command _ _
      (balanced_head hproper (or_assoc.mp (.inl hkind.symm))) ?_ trivial
      (fun _ => .of_balanced (by simp) .nil) (by simp)
    rintro rfl
    rcases hkind with h | h <;> cases h

/-! ### The induction over the trees -/

mutual

/-- What is written for a tree, unless it is a stray brace, which only stands at the
top. -/
theorem Tree.shuts (horderly : table.Orderly) : (t : Tree) → (start : Nat) →
    (scope : Scope) → (mode : Mode) → (rest : List Lexeme) → scope ≠ .top →
    t.Reads table scope mode rest → IsCut (t.lexemes ++ rest) →
      Shuts t.lexemes (nodeWritten table (t.node start))
  | .text chars, start, _, _, rest, _, hreads, hcut => by
      simp only [Tree.Reads] at hreads
      exact shuts_text (isText_of_readsText hreads) hcut
  | .gap lexeme, start, _, _, rest, _, hreads, _ => by
      simp only [Tree.Reads] at hreads
      refine .of_balanced (by simpa using lone_ne_of_isGap hreads) ?_
      rw [Markup.Tree.node]
      split_ifs
      · exact Balanced.nil
      · exact Balanced.char (by decide)
  | .stray, _, _, _, _, hscope, hreads, _ => by
      simp only [Tree.Reads] at hreads
      -- A stray brace can stand at the top only.
      exact absurd hreads hscope
  | .group body closed, start, _, mode, rest, _, hreads, hcut => by
      simp only [Tree.Reads] at hreads
      have hinside : IsCut (treesLexemes body ++
          (charLexemes (Enclosure.braces closed).closing ++ rest)) := by
        rw [← List.append_assoc]
        exact (isCut_cons.mp hcut).2.2
      have hbody := treesShut horderly body (start + 1) .braces mode
        _ (by simp) hreads.1
        hinside
      refine hbody.congr ?_
      have hopen : lone ≠ Lexeme.start '{' := by decide
      simp [hopen, lone_not_mem_marks]
  | .command head args missing, start, _, mode, rest, _, hreads, hcut => by
      simp only [Tree.Reads] at hreads
      have hhead : head.Proper := (isCut_cons.mp hcut).1
      have hinside : IsCut (argsLexemes args ++ rest) := (isCut_cons.mp hcut).2.2
      rw [Markup.Tree.node]
      rcases hreads with ⟨hkind, rfl, -⟩ | ⟨hkind, hargs⟩
      · refine shuts_command _ _ (balanced_head hhead (.inr (.inl hkind))) ?_ trivial
          (fun _ => .of_balanced (by simp) .nil) (by simp)
        rintro rfl
        cases hkind
      · have hshut := argsShut_of_read horderly args _ _ rest missing hargs hinside
        refine shuts_command _ _ (balanced_head hhead (hkind.imp_right .inr)) ?_ hshut
          (shuts_arguments hargs hinside hshut)
            (command_fits horderly hhead hkind hargs).2
        rintro rfl
        rcases hkind with h | h | h <;> cases h

/-- What is written for trees in a row is balanced, a lone backslash at the end
excepted. -/
theorem treesShut (horderly : table.Orderly) : (ts : List Tree) → (start : Nat) →
    (scope : Scope) → (mode : Mode) → (rest : List Lexeme) → scope ≠ .top →
    treesRead table scope mode rest ts → IsCut (treesLexemes ts ++ rest) →
      Shuts (treesLexemes ts) (nodesWritten table (treesNodes start ts))
  | [], _, _, _, _, _, _, _ => .of_balanced (by simp) .nil
  | t :: ts, start, scope, mode, rest, hscope, hreads, hcut => by
      simp only [treesRead] at hreads
      rw [treesLexemes, List.append_assoc] at hcut
      refine (Tree.shuts horderly t start scope mode _ hscope hreads.1 hcut).append
        (treesShut horderly ts _ scope mode rest hscope hreads.2 hcut.right_of_append)
        fun hlone => ?_
      have hnil := (List.append_eq_nil_iff.mp (eq_nil_of_lone hcut hlone)).1
      obtain rfl := eq_nil_of_treesLexemes hreads.2 hnil
      exact ⟨rfl, rfl⟩

/-- What is written for arguments has matching braces, one by one. -/
theorem argsShut_of_read (horderly : table.Orderly) : (args : List Arg) →
    (mode : Mode) → (slots : List Slot) → (rest : List Lexeme) → (missing : Bool) →
    argsRead table mode slots rest missing args → IsCut (argsLexemes args ++ rest) →
      argsShut table args
  | [], _, _, _, _, _, _ => trivial
  | .mk before enclosure body :: args, mode, slots, rest, missing, hreads, hcut => by
      obtain ⟨hbefore, -, hcontent, left, hargs⟩ := argsRead_cons hreads
      simp only [argsLexemes, List.append_assoc] at hcut
      have hinside := hcut.right_of_append.right_of_append
      refine ⟨fun hlone => lone_ne_of_isGap (hbefore lone hlone) rfl, fun start => ?_,
        argsShut_of_read horderly args mode left rest missing hargs
          hinside.right_of_append.right_of_append⟩
      rcases hcontent with ⟨scope, hscope, hbody⟩ | ⟨slots', left', hbody⟩
      · exact treesShut horderly body start scope mode _ hscope hbody hinside
      · exact treesShut_of_bare horderly body start mode slots' left' _ hbody hinside

theorem treesShut_of_bare (horderly : table.Orderly) :
    (body : List Tree) → (start : Nat) → (mode : Mode) → (slots left : List Slot) →
    (rest : List Lexeme) → bareReads table mode slots left rest body →
      IsCut (treesLexemes body ++ rest) →
      Shuts (treesLexemes body) (nodesWritten table (treesNodes start body))
  | [], _, _, _, _, _, hreads, _ => by simp only [bareReads] at hreads
  | _ :: _ :: _, _, _, _, _, _, hreads, _ => by simp only [bareReads] at hreads
  | [t], start, mode, _, _, rest, hreads, hcut => by
      simp only [bareReads] at hreads
      simp only [treesLexemes, List.append_nil] at hcut
      simp only [treesNodes, nodesWritten, treesLexemes, List.append_nil]
      obtain ⟨l, hl, hcases⟩ := hreads
      obtain ⟨-, hdelimiter, rfl⟩ | ⟨-, ⟨hword, ht⟩ | ⟨hkind, rfl⟩⟩ := hcases
      · refine shuts_atom hcut hl ?_ start
        cases hkind : l.kind <;> simp_all [isDelimiter, LexemeKind.isText]
      · exact Tree.shuts horderly t start .braces mode rest (by simp)
          (ht.of_controlWord hl hword) hcut
      · exact shuts_atom hcut hl (hkind.imp_right .inl) start

end

/-! ### Sources -/

/-- The braces of a source that has a depth match, up to those that stay open. -/
theorem matches_of_nesting? {source : String} {depth : Nat}
    (h : nesting? 0 source.toList = some depth) :
    (∀ l ∈ lex source.toList, l.kind ≠ .comment ∧ l ≠ lone) ∧
      (matchBraces (tokenize source)).strays = [] ∧
      (matchBraces (tokenize source)).opened.length = depth := by
  have htext : nesting? (BraceMatch.mk [] [] []).opened.length
      (lexemesText (lex source.toList)) = some depth := by
    rwa [lexemesText_lex]
  obtain ⟨hall, pairs, opened, hfold, hlength⟩ :=
    matchBraces_of_nesting? (isCut_lex source.toList) 0 ⟨[], [], []⟩ htext
  rw [matchBraces, tokenize, hfold]
  exact ⟨hall, rfl, hlength⟩

/-- The braces of a balanced text match, and it ends in neither a comment nor a lone
backslash. -/
theorem Balanced.bracesMatch {w : List Char} (h : Balanced w) :
    BracesMatch (String.ofList w) := by
  have hdepth : nesting? 0 (String.ofList w).toList = some 0 := by
    rw [String.toList_ofList, h.nesting?_eq]
  obtain ⟨-, hstrays, hlength⟩ := matches_of_nesting? hdepth
  exact ⟨hstrays, List.eq_nil_of_length_eq_zero hlength⟩

/-- A balanced text does not take in a mark behind it. -/
theorem Balanced.endsBeforeMark {w : List Char} (h : Balanced w) :
    EndsBeforeMark w := by
  have hdepth : nesting? 0 (String.ofList w).toList = some 0 := by
    rw [String.toList_ofList, h.nesting?_eq]
  obtain ⟨hall, -, -⟩ := matches_of_nesting? hdepth
  rw [String.toList_ofList] at hall
  exact fun l hl => hall l (List.mem_of_getLast? hl)

/-- **What is written for the nodes of a source is balanced**, if the source has no
stray brace, no comment and no lone backslash.  Braces may be left open: they are
closed where they are written. -/
theorem balanced_written (horderly : table.Orderly) {source : String} {depth : Nat}
    (h : nesting? 0 source.toList = some depth) :
    Balanced (nodesWritten table (parse table source).nodes) := by
  obtain ⟨hall, hstrays, -⟩ := matches_of_nesting? h
  have hmatched : Without .unmatchedBrace (parse table source).warnings :=
    reported_eq_nil_iff.mp ((matchBraces_tokenize table source).1.symm.trans hstrays)
  have hreads := treesRead_braces_of_top (parse_reads table source) hmatched
  have hcut : IsCut (treesLexemes (parse table source).trees ++ []) := by
    rw [List.append_nil, parse_lexemes]
    exact isCut_lex _
  have hshut := treesShut horderly _ 0 .braces .math [] (by simp) hreads hcut
  refine hshut.balanced ?_
  rw [parse_lexemes]
  exact fun hlone => (hall lone hlone).2 rfl

end Formulary.Variable
