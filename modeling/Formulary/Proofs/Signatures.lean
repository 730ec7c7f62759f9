import Mathlib.Data.List.Nodup
import Mathlib.Data.List.TakeWhile
import Formulary.Proofs.Diagnostics
import Formulary.Proofs.Orderly
import Formulary.Proofs.Tiling

/-!
# Arguments follow signatures

A command asks for arguments by its signature, a list of slots.  The arguments that
it gets in a document answer these slots in their order; only optional ones are
passed over.  They answer all slots, or else all up to one that is not optional, and
then one warning at the head of the command says that an argument is missing.

What a command shows at its place is again said in terms of nodes, tokens and
warnings only (`Fills`, `Node.Conforms`), and `nodesCommands` lists the commands of
all depths that this is said about.  A delimiter is a command without arguments
whatever its signature, so the list follows the slots on its way down and leaves
delimiters out.

* `argsRead_slot` says which slot the next argument answers and which are left.
* `nodup_treesWarnings` says that no two warnings are about one place, so that
  `warningsAt_eq` can tell how many there are at it from which there are.
* `arguments_follow_signatures` is the main statement.
-/

namespace Formulary.Markup

open Formulary.Variable

/-! ### What a signature asks for -/

/-- The warnings about the token at an offset. -/
def warningsAt (position : Nat) (warnings : List Warning) : List Warning :=
  warnings.filter (·.position = position)

/-- Whether a node is a single token: text, or a command without arguments. -/
def Node.isPlain : Node → Bool
  | .text _ _ | .command _ [] _ => true
  | _ => false

/-- An argument that starts at the offset `opened` is one that a slot asks for. -/
def Argument.Answers (warnings : List Warning) (opened : Nat) : Slot → Argument → Prop
  | .optional, .mk opening closing _ =>
    opening = "[" ∧
      (closing = "]" ∧ warningsAt opened warnings = [] ∨
        closing = "" ∧ warningsAt opened warnings =
          [⟨.unterminatedOptional, opened, ['[']⟩])
  | .delimiter, .mk opening closing content =>
    opening = "" ∧ closing = "" ∧ ∃ n, content = [n] ∧ n.isPlain
  | .mandatory, .mk opening closing content =>
    opening = "\x7b" ∧ closing = "\x7d" ∨ opening = "" ∧
      closing = "" ∧ ∃ n, content = [n]

/-- Arguments, of which the first follows the offset `start`, answer slots in their
order.  Only optional slots are passed over. -/
inductive Fills (source : String) (warnings : List Warning) :
    Nat → List Slot → List Argument → Prop
  | done (start : Nat) : Fills source warnings start [] []
  | pass {start : Nat} {slots : List Slot} {args : List Argument}
      (h : Fills source warnings start slots args) :
      Fills source warnings start (.optional :: slots) args
  | fill {start opened next : Nat} {slot : Slot} {slots : List Slot} {arg : Argument}
      {args : List Argument} (hplace : arg.Occupies source warnings start opened next)
      (hanswer : arg.Answers warnings opened slot)
        (h : Fills source warnings next slots args) :
      Fills source warnings start (slot :: slots) (arg :: args)

/-- The slots of a command by the kind of its head. -/
def headSlots (table : CommandTable) (kind : LexemeKind) (name : String) : List Slot :=
  match kind with
  | .controlWord => table.slots name
  | .subscript | .superscript => [.mandatory]
  | _ => []

/-- A command has arguments for its slots, either for all of them and nothing is
reported, or for those in front of one that is not optional and a missing argument is
reported once. -/
def Node.Conforms (table : CommandTable) (source : String)
    (warnings : List Warning) : Node → Prop
  | .command name args span =>
    ∃ t ∈ tokenize source, t.Names name ∧ span.map Span.start = some t.start ∧
      ∃ taken left, headSlots table t.lexeme.kind name = taken ++ left ∧
        Fills source warnings t.stop taken args ∧
        (left = [] ∧ warningsAt t.start warnings = [] ∨
          (∃ slot ∈ left.head?, slot ≠ .optional) ∧
            warningsAt t.start warnings = [⟨.missingArgument, t.start, t.lexeme.text⟩])
  | _ => True

/-! ### The commands of a document -/

/-- The slots from the one on that an argument with the given opening mark
answers. -/
def slotsFrom (opening : String) (slots : List Slot) : List Slot :=
  if opening = "[" then slots else slots.dropWhile (· = .optional)

/-- The slots of a command by its name alone. -/
def namedSlots (table : CommandTable) (name : String) : List Slot :=
  if isScriptName name then [.mandatory] else table.slots name

mutual

/-- The commands in a node at any depth, but for delimiters. -/
def nodeCommands (table : CommandTable) : Node → List Node
  | .text _ _ | .blank _ _ | .comment _ _ => []
  | .group children _ => nodesCommands table children
  | .command name args span =>
    .command name args span :: argumentsCommands table (namedSlots table name) args

/-- The commands in nodes in a row at any depth, but for delimiters. -/
def nodesCommands (table : CommandTable) : List Node → List Node
  | [] => []
  | n :: ns => nodeCommands table n ++ nodesCommands table ns

/-- The commands in the arguments of a command that has `slots` left, but for
delimiters. -/
def argumentsCommands (table : CommandTable) (slots : List Slot) :
    List Argument → List Node
  | [] => []
  | .mk opening _ content :: rest =>
    (if (slotsFrom opening slots).head? =
      some .delimiter then [] else nodesCommands table content) ++
      argumentsCommands table (slotsFrom opening slots).tail rest

end

/-! ### Slots -/

/-- A slot that is reached by skipping is the first that is not optional. -/
theorem dropWhile_of_skipOptional {l : Lexeme} {slots left : List Slot} {slot : Slot}
    (h : skipOptional l slots = slot :: left) (hslot : slot ≠ .optional) :
    slots.dropWhile (· = .optional) = slot :: left := by
  induction slots with
  | nil => simp [skipOptional] at h
  | cons first slots ih =>
      cases first with
      | optional =>
          cases hl : isOpenBracket l with
          | true =>
              have hfirst : Slot.optional :: slots = slot :: left := by
                simpa [skipOptional, hl] using h
              exact absurd (List.cons.inj hfirst).1.symm hslot
          | false =>
              have hskip : skipOptional l slots = slot :: left := by
                simpa [skipOptional, hl] using h
              simpa using ih hskip
      | _ => simpa [skipOptional] using h

/-- How the content of an argument is read by what encloses it and by the slot that
it answers. -/
inductive ReadsFor (table : CommandTable) (mode : Mode) (body : List Tree) :
    Slot → Enclosure → Prop
  | brackets {closed : Bool} {rest : List Lexeme}
      (h : treesRead table .brackets mode rest body) :
      ReadsFor table mode body .optional (.brackets closed)
  | braces {closed : Bool} {rest : List Lexeme}
      (h : treesRead table .braces mode rest body) :
      ReadsFor table mode body .mandatory (.braces closed)
  | command {t : Tree} {rest : List Lexeme} (hbody : body = [t])
      (h : treesRead table .top mode rest body) :
        ReadsFor table mode body .mandatory .bare
  | character {l : Lexeme} (hbody : body = [atom l]) (hlexemes : (atom l).lexemes = [l])
      (hl : l.kind.isText = true) : ReadsFor table mode body .mandatory .bare
  | delimiter {l : Lexeme} (hbody : body = [atom l]) (hlexemes : (atom l).lexemes = [l])
      (hl : isDelimiter l = true) : ReadsFor table mode body .delimiter .bare

/-- An argument without braces is read for the first slot that is not optional. -/
theorem readsFor_bare {table : CommandTable} {mode : Mode} {slots left : List Slot}
    {rest : List Lexeme} {body : List Tree}
    (h : bareReads table mode slots left rest body) :
    ∃ slot, slots.dropWhile (· = .optional) = slot :: left ∧
      ReadsFor table mode body slot .bare := by
  match body, h with
  | [t], h =>
      simp only [bareReads] at h
      obtain ⟨l, hl, ⟨hskip, hdelimiter, rfl⟩ | ⟨hskip, hcases⟩⟩ := h
      · exact ⟨.delimiter, dropWhile_of_skipOptional hskip (by simp),
          .delimiter rfl (lexemes_atom hl) hdelimiter⟩
      · refine ⟨.mandatory, dropWhile_of_skipOptional hskip (by simp), ?_⟩
        rcases hcases with ⟨-, ht⟩ | ⟨htext | hsymbol, rfl⟩
        · exact .command rfl ⟨ht, trivial⟩
        · exact .character rfl (lexemes_atom hl) htext
        · -- A control symbol is read like any command.
          have hplain : (atom l).Reads table .top mode rest := by
            rw [atom, if_pos (.inr hsymbol), Tree.plain, Tree.Reads]
            exact .inl ⟨hsymbol, rfl, rfl⟩
          exact .command rfl ⟨hplain, trivial⟩
  | [], h => simp only [bareReads] at h
  | _ :: _ :: _, h => simp only [bareReads] at h

/-- The opening mark of an argument tells which of the slots that a command has left
it answers. -/
theorem argsRead_slot {table : CommandTable} {mode : Mode} {slots : List Slot}
    {rest before : List Lexeme} {missing : Bool}
    {enclosure : Enclosure} {body : List Tree} {args : List Arg}
    (h : argsRead table mode slots rest missing (.mk before enclosure body :: args)) :
    ∃ slot left, slotsFrom enclosure.marks.1 slots = slot :: left ∧
      ReadsFor table mode body slot enclosure ∧
        argsRead table mode left rest missing args := by
  match enclosure, h with
  | .brackets closed, h =>
      simp only [argsRead] at h
      obtain ⟨-, hbody, -, left, rfl, hargs⟩ := h
      exact ⟨.optional, left, if_pos rfl, .brackets hbody, hargs⟩
  | .braces closed, h =>
      simp only [argsRead] at h
      obtain ⟨-, hbody, -, left, hskip, hargs⟩ := h
      exact ⟨.mandatory, left, dropWhile_of_skipOptional hskip (by simp),
        .braces hbody, hargs⟩
  | .bare, h =>
      simp only [argsRead] at h
      obtain ⟨-, left, hbody, hargs⟩ := h
      obtain ⟨slot, hslot, hreads⟩ := readsFor_bare hbody
      exact ⟨slot, left, hslot, hreads, hargs⟩

/-- The slots that an argument does not answer are optional ones in front. -/
theorem exists_passed (opening : String) (slots : List Slot) :
    ∃ passed, slots = passed ++ slotsFrom opening slots ∧
      ∀ s ∈ passed, s = Slot.optional := by
  unfold slotsFrom
  split_ifs
  · exact ⟨[], rfl, by simp⟩
  · refine ⟨slots.takeWhile (· = .optional),
      List.takeWhile_append_dropWhile.symm, fun s hs => ?_⟩
    simpa using List.mem_takeWhile_imp hs

/-- What is left of slots that no argument answers starts with one that has to be
answered. -/
theorem exists_unanswered (slots : List Slot) :
    ∃ passed left, slots = passed ++ left ∧ (∀ s ∈ passed, s = Slot.optional) ∧
      (left = [] ∧ slots.any (· ≠ .optional) = false ∨
        (∃ slot ∈ left.head?, slot ≠ .optional) ∧
          slots.any (· ≠ .optional) = true) := by
  induction slots with
  | nil => exact ⟨[], [], rfl, by simp, .inl ⟨rfl, rfl⟩⟩
  | cons slot slots ih =>
      by_cases hslot : slot = .optional
      · subst hslot
        obtain ⟨passed, left, hslots, hoptional, hend⟩ := ih
        refine ⟨.optional :: passed,
          left, by rw [hslots]; rfl, by simpa using hoptional, ?_⟩
        simpa using hend
      · exact ⟨[], slot :: slots, rfl, by simp,
          .inr ⟨⟨slot, rfl, hslot⟩, by simp [hslot]⟩⟩

theorem Fills.pass_all {source : String} {warnings : List Warning} {start : Nat}
    {passed slots : List Slot} {args : List Argument}
    (hpassed : ∀ s ∈ passed, s = Slot.optional)
    (h : Fills source warnings start slots args) :
    Fills source warnings start (passed ++ slots) args := by
  induction passed with
  | nil => exact h
  | cons s passed ih =>
      obtain rfl := hpassed s (by simp)
      exact (ih fun s' hs' => hpassed s' (by simp [hs'])).pass

/-! ### One warning at a place -/

mutual

/-- No two warnings about a tree are at the same place. -/
theorem Tree.nodup_warnings :
    (t : Tree) → (start : Nat) → (∀ l ∈ t.lexemes, l.text ≠ []) →
      ((t.warnings start).map Warning.position).Nodup
  | .text _, _, _ => by simp [Tree.warnings]
  | .gap _, _, _ => by simp [Tree.warnings]
  | .stray, _, _ => by simp [Tree.warnings]
  | .group body closed, start, hne => by
      have hbody := nodup_treesWarnings body (start + 1) fun l hl =>
        hne l (by simp [hl])
      have hin := position_of_mem_treesWarnings body (start + 1) fun l hl =>
        hne l (by simp [hl])
      simp only [Tree.warnings, List.map_append]
      refine List.Nodup.append hbody (by cases closed <;> simp) ?_
      intro position hposition hown
      obtain ⟨w, hw, rfl⟩ := List.mem_map.mp hposition
      have := hin w hw
      cases closed <;> simp at hown
      omega
  | .command head args missing, start, hne => by
      have hargs := nodup_argsWarnings args (start + head.text.length)
        fun l hl => hne l (by simp [hl])
      have hin := position_of_mem_argsWarnings args (start + head.text.length)
        fun l hl => hne l (by simp [hl])
      have hhead : 0 < head.text.length :=
        List.length_pos_of_ne_nil (hne head (by simp))
      simp only [Tree.warnings, List.map_append]
      refine List.Nodup.append hargs (by cases missing <;> simp) ?_
      intro position hposition hown
      obtain ⟨w, hw, rfl⟩ := List.mem_map.mp hposition
      have := hin w hw
      cases missing <;> simp at hown
      omega

/-- **No two warnings are about one place.** -/
theorem nodup_treesWarnings : (ts : List Tree) → (start : Nat) →
    (∀ l ∈ treesLexemes ts, l.text ≠ []) →
      ((treesWarnings start ts).map Warning.position).Nodup
  | [], _, _ => by simp [treesWarnings]
  | t :: ts, start, hne => by
      have hfirst : ∀ l ∈ t.lexemes, l.text ≠ [] := fun l hl => hne l (by simp [hl])
      have hothers : ∀ l ∈ treesLexemes ts, l.text ≠ [] :=
        fun l hl => hne l (by simp [hl])
      have hin := t.position_of_mem_warnings start hfirst
      have hafter := position_of_mem_treesWarnings ts (start + t.width) hothers
      rw [treesWarnings, List.map_append]
      refine List.Nodup.append (t.nodup_warnings start hfirst)
        (nodup_treesWarnings ts (start + t.width) hothers) ?_
      intro position hposition hposition'
      obtain ⟨w, hw, rfl⟩ := List.mem_map.mp hposition
      obtain ⟨w', hw', heq⟩ := List.mem_map.mp hposition'
      have := hin w hw
      have := hafter w' hw'
      simp only [Tree.width] at this
      omega

/-- No two warnings about arguments are at the same place. -/
theorem nodup_argsWarnings : (args : List Arg) → (start : Nat) →
    (∀ l ∈ argsLexemes args, l.text ≠ []) →
      ((argsWarnings start args).map Warning.position).Nodup
  | [], _, _ => by simp [argsWarnings]
  | .mk before enclosure body :: rest, start, hne => by
      have hbody : ∀ l ∈ treesLexemes body, l.text ≠ [] :=
        fun l hl => hne l (by simp [hl])
      have hothers : ∀ l ∈ argsLexemes rest, l.text ≠ [] :=
        fun l hl => hne l (by simp [hl])
      have hin := position_of_mem_treesWarnings body
        (start + (lexemesText before).length + enclosure.opening.length) hbody
      have hafter := position_of_mem_argsWarnings rest
        (start + (argsChars [.mk before enclosure body]).length) hothers
      have hnext := length_argsChars_single before enclosure body
      have hmark : ((enclosure.warnings (start + (lexemesText before).length)).map
          Warning.position).Nodup := by
        rcases enclosure with _ | (_ | _) | (_ | _) <;> simp [Enclosure.warnings]
      rw [argsWarnings, List.map_append, List.map_append]
      refine List.Nodup.append
        (List.Nodup.append (nodup_treesWarnings body _ hbody) hmark ?_)
        (nodup_argsWarnings rest _ hothers) ?_
      -- The warning about the enclosure stands at its opening mark, in front of the
      -- body.
      · intro position hposition hown
        obtain ⟨w, hw, rfl⟩ := List.mem_map.mp hposition
        obtain ⟨w', hw', heq⟩ := List.mem_map.mp hown
        have := hin w hw
        have := Enclosure.position_of_mem_warnings hw'
        omega
      · intro position hposition hposition'
        rw [← List.map_append] at hposition
        obtain ⟨w, hw, rfl⟩ := List.mem_map.mp hposition
        obtain ⟨w', hw', heq⟩ := List.mem_map.mp hposition'
        have := hafter w' hw'
        rcases List.mem_append.mp hw with hw | hw
        · have := hin w hw
          omega
        · have := Enclosure.position_of_mem_warnings hw
          omega

end

/-- Which warnings are about a place determines the list of them, if it is at most
one. -/
theorem warningsAt_eq {warnings own : List Warning} {position : Nat}
    (hnodup : (warnings.map Warning.position).Nodup)
    (hmem : ∀ w : Warning, w.position = position → (w ∈ warnings ↔ w ∈ own))
    (hown : ∀ w ∈ own, w.position = position) (hlength : own.length ≤ 1) :
    warningsAt position warnings = own := by
  have hperm : (warningsAt position warnings).Perm own := by
    refine (List.perm_ext_iff_of_nodup ((hnodup.of_map).filter _) ?_).mpr fun w => ?_
    · match own, hlength with
      | [], _ => exact List.nodup_nil
      | [w], _ => exact List.nodup_singleton w
    · simp only [List.mem_filter, decide_eq_true_eq]
      constructor
      · rintro ⟨hw, hposition⟩
        exact (hmem w hposition).mp hw
      · intro hw
        exact ⟨(hmem w (hown w hw)).mpr hw, hown w hw⟩
  match own, hlength, hperm with
  | [], _, hperm => exact hperm.eq_nil
  | [w], _, hperm => exact List.perm_singleton.mp hperm

/-! ### Commands that are read -/

section Conforming

variable {table : CommandTable} {source : String} {warnings : List Warning}

/-- The node of a single token is plain. -/
theorem isPlain_atom (l : Lexeme) (start : Nat) :
    ((atom l).node start).isPlain = true := by
  unfold atom
  split_ifs <;> rfl

/-- An argument that is read for a slot answers it, with a warning exactly if it is
not closed. -/
theorem argument_answers (hnodup : (warnings.map Warning.position).Nodup)
    {before : List Lexeme} {enclosure : Enclosure} {body : List Tree} {args : List Arg}
    {start : Nat} {mode : Mode} {slot : Slot}
    (hreads : ReadsFor table mode body slot enclosure)
    (hat : StandsAt source start (argsLexemes (.mk before enclosure body :: args)))
    (hwarn : WarnsWithin warnings start
      (start + (argsChars (.mk before enclosure body :: args)).length)
      (argsWarnings start (.mk before enclosure body :: args))) :
    (Argument.mk enclosure.marks.1 enclosure.marks.2
        (treesNodes (start + (lexemesText before).length + enclosure.opening.length)
          body)).Answers
      warnings (start + (lexemesText before).length) slot := by
  cases hreads with
  | @brackets closed _ h =>
      have hmark := (hwarn.argument hat).1 (by simp [Enclosure.opening])
      have hreport := warningsAt_eq hnodup hmark
        (fun w hw => (Enclosure.position_of_mem_warnings hw).1)
        (by cases closed <;> simp [Enclosure.warnings])
      rw [Argument.Answers, hreport]
      cases closed with
      | true => exact ⟨rfl, .inl ⟨rfl, rfl⟩⟩
      | false => exact ⟨rfl, .inr ⟨rfl, rfl⟩⟩
  | braces h => exact .inl ⟨rfl, rfl⟩
  | command hbody h =>
      subst hbody
      exact .inr ⟨rfl, rfl, _, rfl⟩
  | character hbody hlexemes hl =>
      subst hbody
      exact .inr ⟨rfl, rfl, _, rfl⟩
  | delimiter hbody hlexemes hl =>
      subst hbody
      exact ⟨rfl, rfl, _, rfl, isPlain_atom _ _⟩

/-- The arguments of a command answer its slots up to the end or up to one that has
to be answered. -/
theorem exists_fills (hnodup : (warnings.map Warning.position).Nodup) {mode : Mode}
    {rest : List Lexeme} {missing : Bool} {args : List Arg}
    {start : Nat} {slots : List Slot}
    (hreads : argsRead table mode slots rest missing args)
    (hat : StandsAt source start (argsLexemes args))
    (hwarn : WarnsWithin warnings start (start + (argsChars args).length)
      (argsWarnings start args)) :
    ∃ taken left, slots = taken ++ left ∧
      Fills source warnings start taken (argsArguments start args) ∧
      (left = [] ∧ missing = false ∨ (∃ slot ∈ left.head?, slot ≠ .optional) ∧
        missing = true) := by
  induction args generalizing start slots with
  | nil =>
      simp only [argsRead] at hreads
      obtain ⟨-, rfl⟩ := hreads
      obtain ⟨passed, left, hslots, hoptional, hend⟩ := exists_unanswered slots
      refine ⟨passed, left, hslots, ?_, hend⟩
      simpa [argsArguments] using (Fills.done start).pass_all hoptional
  | cons arg args ih =>
      obtain ⟨before, enclosure, body⟩ := arg
      obtain ⟨slot, more, hslot, hanswer, hargs⟩ := argsRead_slot hreads
      obtain ⟨hbefore, -, hcontent, -⟩ := argsRead_cons hreads
      obtain ⟨-, -, hinner, -, hnext⟩ := hat.argument
      obtain ⟨-, hin, hafter⟩ := hwarn.argument hat
      have hplace :=
        argument_occupies hbefore hat hwarn (contentNodes_tile hcontent hinner hin)
      obtain ⟨taken, left, rfl, hfills, hend⟩ := ih hargs hnext hafter
      -- The slots between the last argument and this one are optional ones without
      -- an argument.
      obtain ⟨passed, hpassed, hoptional⟩ := exists_passed enclosure.marks.1 slots
      rw [hslot] at hpassed
      refine ⟨passed ++ slot :: taken, left, by rw [hpassed]; simp, ?_, hend⟩
      rw [argsArguments]
      exact (Fills.fill hplace (argument_answers hnodup hanswer hat hwarn)
        hfills).pass_all hoptional

/-- The slots of a command are those of its head, whether it is a word or a script
mark. -/
theorem headSlots_eq_argumentSlots {head : Lexeme}
    (hkind : head.kind = .controlWord ∨ head.kind = .subscript ∨
      head.kind = .superscript) :
    headSlots table head.kind head.name = argumentSlots table head := by
  rcases hkind with h | h | h <;> simp [headSlots, argumentSlots, h]

/-- The name of a command that is read tells its slots. -/
theorem namedSlots_eq_argumentSlots {head : Lexeme} (hproper : head.Proper)
    (hkind : head.kind = .controlWord ∨ head.kind = .subscript ∨
      head.kind = .superscript) :
    namedSlots table head.name = argumentSlots table head := by
  rcases hkind with hword | hmark
  · rw [namedSlots, isScriptName_eq_false_of_controlWord hproper hword,
      argumentSlots, if_pos hword]
    rfl
  · have hname : isScriptName head.name = true := by
      rcases Token.names_name hproper (.inr (.inr hmark)) 0 with
        ⟨⟨-, hname⟩ | ⟨-, hname⟩, -⟩ | ⟨hword | hsymbol, -⟩
      · rw [hname]
        rfl
      · rw [hname]
        rfl
      · rcases hmark with h | h <;> simp [h] at hword
      · rcases hmark with h | h <;> simp [h] at hsymbol
    have hword : head.kind ≠ .controlWord := by rcases hmark with h | h <;> simp [h]
    rw [namedSlots, hname, argumentSlots, if_neg hword]
    rfl

/-- All that is ever reported about the head of a command is a missing argument. -/
theorem warningsAt_head (hnodup : (warnings.map Warning.position).Nodup) {head : Lexeme}
    {args : List Arg} {missing : Bool} {start : Nat}
    (hat : StandsAt source start (Tree.command head args missing).lexemes)
    (hwarn : WarnsWithin warnings start
      (start + (Tree.command head args missing).chars.length)
      ((Tree.command head args missing).warnings start)) :
    warningsAt start warnings =
      if missing then [⟨.missingArgument, start, head.text⟩] else [] := by
  have hhead : 0 < head.text.length :=
    List.length_pos_of_ne_nil (hat.text_ne_nil head (by simp))
  have hafter : StandsAt source (start + head.text.length) (argsLexemes args) :=
    hat.tail
  have hin := position_of_mem_argsWarnings args
    (start + head.text.length) hafter.text_ne_nil
  refine warningsAt_eq hnodup (fun w hw => ?_) (by cases missing <;> simp)
    (by cases missing <;> simp)
  rw [hwarn w (by omega) (by simp only [Tree.chars, List.length_append]; omega),
    Tree.warnings, List.mem_append]
  refine or_iff_right fun hargs => ?_
  have := hin w hargs
  omega

/-- A command conforms to its signature, with a warning exactly if an argument is
missing. -/
theorem command_conforms (hnodup : (warnings.map Warning.position).Nodup)
    {head : Lexeme} {args : List Arg} {missing : Bool} {start : Nat}
    {scope : Scope} {mode : Mode} {rest : List Lexeme}
    (hreads : (Tree.command head args missing).Reads table scope mode rest)
    (hat : StandsAt source start (Tree.command head args missing).lexemes)
    (hwarn : WarnsWithin warnings start
      (start + (Tree.command head args missing).chars.length)
      ((Tree.command head args missing).warnings start)) :
    ((Tree.command head args missing).node start).Conforms table source warnings := by
  have hhead : StandsAt source start [head] := StandsAt.left hat
  have hproper := hhead.proper head (by simp)
  have hafter : StandsAt source (start + head.text.length) (argsLexemes args) :=
    hat.tail
  have hreport := warningsAt_head hnodup hat hwarn
  simp only [Tree.Reads] at hreads
  simp only [Tree.node, Node.Conforms]
  refine ⟨⟨head, start⟩, hhead.mem_tokenize _ (by simp [placeFrom]),
    Token.names_name hproper (by tauto) start, rfl, ?_⟩
  rcases hreads with ⟨hkind, rfl, rfl⟩ | ⟨hkind, hargs⟩
  · exact ⟨[], [], by simp [headSlots, hkind], Fills.done _, .inl ⟨rfl, hreport⟩⟩
  · obtain ⟨taken, left, hslots, hfills, hend⟩ := exists_fills hnodup hargs hafter
      (hwarn.command_args (hat.text_ne_nil head (by simp)))
    refine ⟨taken, left, by rw [headSlots_eq_argumentSlots hkind, hslots], hfills, ?_⟩
    rcases hend with ⟨hleft, rfl⟩ | ⟨hleft, rfl⟩
    · exact .inl ⟨hleft, hreport⟩
    · exact .inr ⟨hleft, hreport⟩

/-! ### The induction over the trees -/

theorem nodesCommands_character {l : Lexeme} (hl : l.kind.isText = true) (start : Nat) :
    nodesCommands table (treesNodes start [atom l]) = [] := by
  have hcontrol : ¬ (l.kind = .controlWord ∨ l.kind = .controlSymbol) := by
    rcases LexemeKind.eq_of_isText hl with h | h | h <;> simp [h]
  rw [atom, if_neg hcontrol]
  rfl

mutual

/-- All commands in a tree conform to their signatures. -/
theorem Tree.commands_conform (hnodup : (warnings.map Warning.position).Nodup) :
    (t : Tree) → (start : Nat) → (scope : Scope) → (mode : Mode) →
    (rest : List Lexeme) → t.Reads table scope mode rest →
    StandsAt source start t.lexemes →
      WarnsWithin warnings start (start + t.chars.length) (t.warnings start) →
      ∀ n ∈ nodeCommands table (t.node start), n.Conforms table source warnings
  | .text _, _, _, _, _, _, _, _ => by simp [Tree.node, nodeCommands]
  | .gap lexeme, _, _, _, _, _, _, _ => by
      by_cases hkind : lexeme.kind = .comment <;> simp [Tree.node, hkind, nodeCommands]
  | .stray, _, _, _, _, _, _, _ => by simp [Tree.node, nodeCommands]
  | .group body closed, start, _, mode, rest, hreads, hat, hwarn => by
      simp only [Tree.Reads] at hreads
      have hinner : StandsAt source (start + 1) (treesLexemes body) := hat.tail.left
      rw [Tree.node, nodeCommands]
      exact treesCommands_conform hnodup body (start + 1) _ _ _ hreads.1
        hinner hwarn.group_body
  | .command head args missing, start, _, mode, rest, hreads, hat, hwarn => by
      have hself := command_conforms hnodup hreads hat hwarn
      have hproper : head.Proper := hat.proper head (by simp)
      have hafter : StandsAt source (start + head.text.length) (argsLexemes args) :=
        hat.tail
      have hin := hwarn.command_args (hat.text_ne_nil head (by simp))
      simp only [Tree.Reads] at hreads
      simp only [Tree.node, nodeCommands, List.forall_mem_cons] at hself ⊢
      refine ⟨hself, ?_⟩
      rcases hreads with ⟨-, rfl, -⟩ | ⟨hkind, hargs⟩
      · simp [argsArguments, argumentsCommands]
      · rw [namedSlots_eq_argumentSlots hproper hkind]
        exact argsCommands_conform hnodup args _ _ _ rest missing hargs hafter hin

/-- All commands in trees conform to their signatures. -/
theorem treesCommands_conform (hnodup : (warnings.map Warning.position).Nodup) :
    (ts : List Tree) → (start : Nat) → (scope : Scope) → (mode : Mode) →
    (rest : List Lexeme) → treesRead table scope mode rest ts →
    StandsAt source start (treesLexemes ts) →
      WarnsWithin warnings start (start + (treesChars ts).length)
        (treesWarnings start ts) →
      ∀ n ∈ nodesCommands table (treesNodes start ts), n.Conforms table source warnings
  | [], _, _, _, _, _, _, _ => by simp [treesNodes, nodesCommands]
  | t :: ts, start, scope, mode, rest, hreads, hat, hwarn => by
      simp only [treesRead] at hreads
      obtain ⟨hfirst, hsecond⟩ := hat.trees_cons
      obtain ⟨hin, hafter⟩ := hwarn.trees_cons hat
      rw [treesNodes, nodesCommands, Tree.width]
      exact List.forall_mem_append.mpr
        ⟨t.commands_conform hnodup start scope mode _ hreads.1 hfirst hin,
          treesCommands_conform hnodup ts _ scope mode rest hreads.2 hsecond hafter⟩

/-- All commands in arguments conform to their signatures. -/
theorem argsCommands_conform (hnodup : (warnings.map Warning.position).Nodup) :
    (args : List Arg) → (start : Nat) → (mode : Mode) → (slots : List Slot) →
    (rest : List Lexeme) → (missing : Bool) →
    argsRead table mode slots rest missing args →
    StandsAt source start (argsLexemes args) →
      WarnsWithin warnings start (start + (argsChars args).length)
        (argsWarnings start args) →
      ∀ n ∈ argumentsCommands table slots (argsArguments start args),
        n.Conforms table source warnings
  | [], _, _, _, _, _, _, _, _ => by simp [argsArguments, argumentsCommands]
  | .mk before enclosure body :: args, start, mode, slots, rest, missing,
      hreads, hat, hwarn => by
      obtain ⟨slot, left, hslot, hanswer, hargs⟩ := argsRead_slot hreads
      obtain ⟨-, -, hinner, -, hnext⟩ := hat.argument
      obtain ⟨-, hin, hafter⟩ := hwarn.argument hat
      have hothers := argsCommands_conform hnodup args _ mode left rest
        missing hargs hnext hafter
      have hbody (scope : Scope) (rest' : List Lexeme)
          (h : treesRead table scope mode rest' body) :=
        treesCommands_conform hnodup body _ scope mode rest' h hinner hin
      rw [argsArguments, argumentsCommands, hslot]
      refine List.forall_mem_append.mpr ⟨?_, hothers⟩
      cases hanswer with
      | brackets h => exact hbody _ _ h
      | braces h => exact hbody _ _ h
      | command _ h => exact hbody _ _ h
      | character hsingle _ hl =>
          rw [hsingle]
          simp [nodesCommands_character hl]
      | delimiter _ _ _ => simp

end

end Conforming

/-! ### Script marks -/

section Scripts

variable {table : CommandTable} {tok : Token}

theorem lexeme_mem_of_mem_placeFrom {start : Nat} {ls : List Lexeme}
    (h : tok ∈ placeFrom start ls) :
    tok.lexeme ∈ ls := by
  rw [← map_lexeme_placeFrom start ls]
  exact List.mem_map_of_mem h

/-- A token of arguments is layout, a mark, or in the content of one of them. -/
theorem mem_placeFrom_args_cons {before : List Lexeme}
    {enclosure : Enclosure} {body : List Tree} {args : List Arg} {start : Nat}
    (h : tok ∈ placeFrom start (argsLexemes (.mk before enclosure body :: args))) :
    tok.lexeme ∈ before ∨
      tok.lexeme ∈ charLexemes (enclosure.opening ++ enclosure.closing) ∨
      tok ∈ placeFrom (start + (lexemesText before).length + enclosure.opening.length)
        (treesLexemes body) ∨
      tok ∈ placeFrom (start + (argsChars [.mk before enclosure body]).length)
        (argsLexemes args) := by
  simp only [argsLexemes, placeFrom_append, lexemesText_charLexemes,
    lexemesText_treesLexemes, List.mem_append] at h
  simp only [charLexemes, List.map_append, List.mem_append,
    length_argsChars_single, ← Nat.add_assoc]
  rcases h with h | h | h | h | h
  · exact .inl (lexeme_mem_of_mem_placeFrom h)
  · exact .inr (.inl (.inl (lexeme_mem_of_mem_placeFrom h)))
  · exact .inr (.inr (.inl h))
  · exact .inr (.inl (.inr (lexeme_mem_of_mem_placeFrom h)))
  · exact .inr (.inr (.inr h))

/-- A command stands in a list of nodes where a token is. -/
def HasCommandAt (tok : Token) (nodes : List Node) : Prop :=
  ∃ args stop, Node.command tok.lexeme.name args (some ⟨tok.start, stop⟩) ∈ nodes

/-- A command that is found stays found among more nodes. -/
theorem HasCommandAt.mono {nodes nodes' : List Node} (h : HasCommandAt tok nodes)
    (hsubset : nodes ⊆ nodes') : HasCommandAt tok nodes' := by
  obtain ⟨args, stop, hmem⟩ := h
  exact ⟨args, stop, hsubset hmem⟩

/-- The marks around arguments and groups are no script marks. -/
theorem kind_of_mem_marks {l : Lexeme} {enclosure : Enclosure}
    (h : l ∈ charLexemes (enclosure.opening ++ enclosure.closing)) :
    l.kind ≠ .subscript ∧ l.kind ≠ .superscript := by
  have hmarks : (enclosure.opening ++ enclosure.closing).all
      (fun c => Lexeme.startKind c ≠ .subscript ∧ Lexeme.startKind c ≠ .superscript) =
        true := by
    rcases enclosure with _ | (_ | _) | (_ | _) <;> decide
  obtain ⟨c, hc, rfl⟩ := List.mem_map.mp h
  exact of_decide_eq_true (List.all_eq_true.mp hmarks c hc)

mutual

theorem Tree.script_found
    (hmark : tok.lexeme.kind = .subscript ∨ tok.lexeme.kind = .superscript) :
    (t : Tree) → (start : Nat) → (scope : Scope) → (mode : Mode) →
    (rest : List Lexeme) → t.Reads table scope mode rest → (∀ l ∈ t.lexemes, l.Proper) →
    tok ∈ placeFrom start t.lexemes →
      HasCommandAt tok (nodeCommands table (t.node start))
  | .text chars, start, _, _, _, hreads, _, htok => by
      simp only [Tree.Reads] at hreads
      obtain ⟨c, hc, heq⟩ := List.mem_map.mp (lexeme_mem_of_mem_placeFrom htok)
      have htext : tok.lexeme.kind.isText = true :=
        heq ▸ isText_of_readsText hreads c hc
      rcases hmark with h | h <;> simp [h, LexemeKind.isText] at htext
  | .gap lexeme, start, _, _, _, hreads, _, htok => by
      simp only [Tree.Reads] at hreads
      obtain rfl : tok.lexeme = lexeme := by
        simpa using lexeme_mem_of_mem_placeFrom htok
      rcases hmark with h | h <;> simp [Lexeme.isGap, h] at hreads
  | .stray, start, _, _, _, _, _, htok => by
      have hbrace : tok.lexeme = Lexeme.start '}' := by
        simpa using lexeme_mem_of_mem_placeFrom htok
      rw [hbrace] at hmark
      exact absurd hmark (by decide)
  | .group body closed, start, _, mode, _, hreads, hproper, htok => by
      simp only [Tree.Reads] at hreads
      have hinner : ∀ l ∈ treesLexemes body, l.Proper :=
        fun l hl => hproper l (by simp [hl])
      rw [Tree.node, nodeCommands]
      simp only [Tree.lexemes, placeFrom, List.mem_cons, placeFrom_append,
        List.mem_append] at htok
      rcases htok with rfl | htok | htok
      -- The braces of the group are no script marks, so the mark stands in the body.
      · have hopen : ¬ ((Lexeme.start '{').kind = .subscript ∨
            (Lexeme.start '{').kind = .superscript) := by
          decide
        exact absurd hmark hopen
      · exact treesScript_found hmark body (start + 1) _ _ _ hreads.1 hinner htok
      · have hclose : tok.lexeme ∈ charLexemes
            ((Enclosure.braces closed).opening ++
              (Enclosure.braces closed).closing) := by
          rw [charLexemes, List.map_append]
          exact List.mem_append_right _ (lexeme_mem_of_mem_placeFrom htok)
        have hkind := kind_of_mem_marks hclose
        exact absurd hmark (by tauto)
  | .command head args missing, start, _, mode, rest, hreads, hproper, htok => by
      simp only [Tree.Reads] at hreads
      simp only [Tree.lexemes, placeFrom, List.mem_cons] at htok
      simp only [Tree.node, nodeCommands]
      rcases htok with rfl | htok
      · exact ⟨_, _, List.mem_cons_self⟩
      · have hothers : ∀ l ∈ argsLexemes args, l.Proper :=
          fun l hl => hproper l (by simp [hl])
        refine HasCommandAt.mono ?_ (List.subset_cons_self _ _)
        rcases hreads with ⟨-, rfl, -⟩ | ⟨hkind, hargs⟩
        · simp [placeFrom] at htok
        · rw [namedSlots_eq_argumentSlots (hproper head (by simp)) hkind]
          exact argsScript_found hmark args _ _ _ rest missing hargs hothers htok

/-- **Every script mark is a command** of the nodes of its trees. -/
theorem treesScript_found
    (hmark : tok.lexeme.kind = .subscript ∨ tok.lexeme.kind = .superscript) :
    (ts : List Tree) → (start : Nat) → (scope : Scope) → (mode : Mode) →
    (rest : List Lexeme) → treesRead table scope mode rest ts →
    (∀ l ∈ treesLexemes ts, l.Proper) → tok ∈ placeFrom start (treesLexemes ts) →
      HasCommandAt tok (nodesCommands table (treesNodes start ts))
  | [], _, _, _, _, _, _, htok => by simp [placeFrom] at htok
  | t :: ts, start, scope, mode, rest, hreads, hproper, htok => by
      simp only [treesRead] at hreads
      rw [treesLexemes, placeFrom_append, List.mem_append,
        t.lexemesText_lexemes] at htok
      rw [treesNodes, nodesCommands, Tree.width]
      rcases htok with htok | htok
      · exact (t.script_found hmark start scope mode _ hreads.1
          (fun l hl => hproper l (by simp [hl]))
          htok).mono (List.subset_append_left _ _)
      · exact (treesScript_found hmark ts _ scope mode rest hreads.2
          (fun l hl => hproper l (by simp [hl])) htok).mono
            (List.subset_append_right _ _)

theorem argsScript_found
    (hmark : tok.lexeme.kind = .subscript ∨ tok.lexeme.kind = .superscript) :
    (args : List Arg) → (start : Nat) → (mode : Mode) → (slots : List Slot) →
    (rest : List Lexeme) → (missing : Bool) →
    argsRead table mode slots rest missing args → (∀ l ∈ argsLexemes args, l.Proper) →
      tok ∈ placeFrom start (argsLexemes args) →
      HasCommandAt tok (argumentsCommands table slots (argsArguments start args))
  | [], _, _, _, _, _, _, _, htok => by simp [placeFrom] at htok
  | .mk before enclosure body :: args, start, mode, slots, rest, missing,
      hreads, hproper, htok => by
      obtain ⟨hbefore, -⟩ := argsRead_cons hreads
      obtain ⟨slot, left, hslot, hanswer, hargs⟩ := argsRead_slot hreads
      have hinner : ∀ l ∈ treesLexemes body, l.Proper :=
        fun l hl => hproper l (by simp [hl])
      have hothers : ∀ l ∈ argsLexemes args, l.Proper :=
        fun l hl => hproper l (by simp [hl])
      rw [argsArguments, argumentsCommands, hslot]
      rcases mem_placeFrom_args_cons htok with hgap | hmarks | htok | htok
      · have hgap := hbefore _ hgap
        rcases hmark with h | h <;> simp [Lexeme.isGap, h] at hgap
      · have hkind := kind_of_mem_marks hmarks
        exact absurd hmark (by tauto)
      · have hbody (scope : Scope) (rest' : List Lexeme)
            (h : treesRead table scope mode rest' body) :=
          treesScript_found hmark body _ scope mode rest' h hinner htok
        refine HasCommandAt.mono ?_ (List.subset_append_left _ _)
        cases hanswer with
        | brackets h => exact hbody _ _ h
        | braces h => exact hbody _ _ h
        | command _ h => exact hbody _ _ h
        -- A single character is no script mark, and neither is a delimiter.
        | character hsingle hlexemes hl =>
            have hmem := lexeme_mem_of_mem_placeFrom htok
            simp only [hsingle, treesLexemes, hlexemes, List.append_nil,
              List.mem_singleton] at hmem
            rw [hmem] at hmark
            rcases hmark with h | h <;> simp [h, LexemeKind.isText] at hl
        | delimiter hsingle hlexemes hl =>
            have hmem := lexeme_mem_of_mem_placeFrom htok
            simp only [hsingle, treesLexemes, hlexemes, List.append_nil,
              List.mem_singleton] at hmem
            rw [hmem] at hmark
            rcases hmark with h | h <;> simp [h, isDelimiter] at hl
      · exact (argsScript_found hmark args _ mode left rest missing
          hargs hothers htok).mono
          (List.subset_append_right _ _)

end

end Scripts

/-! ### The document -/

/-- A token is known by where it starts. -/
theorem eq_of_start_eq {source : String} {t t' : Token} (ht : t ∈ tokenize source)
    (ht' : t' ∈ tokenize source) (h : t.start = t'.start) : t = t' := by
  have hstarts : (tokenize source).Pairwise (·.start < ·.start) :=
    pairwise_placeFrom (fun l hl => (lex_proper source.toList l hl).text_ne_nil) 0
  have hnodup : ((tokenize source).map Token.start).Nodup :=
    List.pairwise_map.mpr (hstarts.imp fun hlt => Nat.ne_of_lt hlt)
  exact List.inj_on_of_nodup_map hnodup ht ht' h

/-- What a single slot that has to be answered means for the arguments. -/
theorem Fills.mandatory_cases {source : String} {warnings : List Warning} {start : Nat}
    {taken left : List Slot} {args : List Argument}
    (hslots : [Slot.mandatory] = taken ++ left)
    (h : Fills source warnings start taken args) :
    left = [] ∧ (∃ arg, args = [arg]) ∨ left ≠ [] ∧ args = [] := by
  match taken, left, hslots with
  | [], _, rfl =>
      cases h
      exact .inr ⟨by simp, rfl⟩
  | [.mandatory], [], _ =>
      obtain _ | _ | ⟨-, -, h⟩ := h
      cases h
      exact .inl ⟨rfl, _, rfl⟩

/-- What it means for a script mark to conform: it has one argument, or none and this
is reported. -/
theorem Node.Conforms.script {table : CommandTable} {source : String}
    {warnings : List Warning} {t : Token} (ht : t ∈ tokenize source)
    (hmark : t.lexeme.kind = .subscript ∨ t.lexeme.kind = .superscript) {name : String}
    {args : List Argument} {stop : Nat}
    (h : (Node.command name args (some ⟨t.start, stop⟩)).Conforms
      table source warnings) :
    (∃ arg, args = [arg]) ∧ warningsAt t.start warnings = [] ∨
      args = [] ∧ warningsAt t.start warnings =
        [⟨.missingArgument, t.start, t.lexeme.text⟩] := by
  -- What is known of the command is said about a token that starts where it does:
  -- this one.
  obtain ⟨t', ht', -, hstart, taken, left, hslots, hfills, hend⟩ := h
  obtain rfl : t' = t := eq_of_start_eq ht' ht (Option.some.inj hstart).symm
  have hsingle : headSlots table t'.lexeme.kind name = [.mandatory] := by
    rcases hmark with h | h <;> simp [headSlots, h]
  rcases hfills.mandatory_cases (hsingle.symm.trans hslots)
    with ⟨rfl, harg⟩ | ⟨hne, rfl⟩
  · rcases hend with ⟨-, hnone⟩ | ⟨⟨slot, hslot, -⟩, -⟩
    · exact .inl ⟨harg, hnone⟩
    · simp at hslot
  · rcases hend with ⟨hnil, -⟩ | ⟨-, hone⟩
    · exact absurd hnil hne
    · exact .inr ⟨rfl, hone⟩

/-- **Arguments follow signatures.**  Every command of a document, at any depth and
but for delimiters, has arguments that answer the slots of its signature in their
order; if they do not answer all of them, a missing argument is reported once where
the command starts, and nothing is reported there otherwise.  Every script mark is
such a command, with one argument or with a report. -/
theorem arguments_follow_signatures (table : CommandTable) (source : String) :
    let d := parse table source
    (∀ n ∈ nodesCommands table d.nodes, n.Conforms table source d.warnings) ∧
      ∀ t ∈ tokenize source, t.lexeme.kind = .subscript ∨ t.lexeme.kind = .superscript →
        ∃ args stop, Node.command t.lexeme.name args (some ⟨t.start, stop⟩) ∈
            nodesCommands table d.nodes ∧
          ((∃ arg, args = [arg]) ∧ warningsAt t.start d.warnings = [] ∨
            args = [] ∧
              warningsAt t.start d.warnings =
                [⟨.missingArgument, t.start, t.lexeme.text⟩]) := by
  intro d
  have hat : StandsAt source 0 (treesLexemes d.trees) :=
    ⟨[], [], by rw [parse_lexemes, List.append_nil, List.nil_append], rfl⟩
  have hnodup : (d.warnings.map Warning.position).Nodup :=
    nodup_treesWarnings d.trees 0 hat.text_ne_nil
  have hconform : ∀ n ∈ nodesCommands table d.nodes,
      n.Conforms table source d.warnings :=
    treesCommands_conform hnodup d.trees 0 .top .math [] (parse_reads table source) hat
      fun _ _ _ => Iff.rfl
  refine ⟨hconform, fun t ht hmark => ?_⟩
  have htok : t ∈ placeFrom 0 (treesLexemes d.trees) := by
    rw [parse_lexemes]
    exact ht
  obtain ⟨args, stop, hmem⟩ :=
    treesScript_found hmark d.trees 0 .top .math []
      (parse_reads table source) hat.proper htok
  exact ⟨args, stop, hmem, Node.Conforms.script ht hmark (hconform _ hmem)⟩

/-- A root whose bracket is not closed, with a subscript mark at the end of it: both
commands stay without the argument that they ask for, and so does the bracket without
its closing one. -/
theorem arguments_follow_signatures_open :
    let source := "\\sqrt[x_"
    let d := parse .standard source
    (⟨Lexeme.start '_', 7⟩ : Token) ∈ tokenize source ∧
      (nodesCommands .standard d.nodes).length = 2 ∧
      d.warnings = [⟨.missingArgument, 7, ['_']⟩, ⟨.unterminatedOptional, 5, ['[']⟩,
        ⟨.missingArgument, 0, ['\\', 's', 'q', 'r', 't']⟩] ∧
      (∀ n ∈ nodesCommands .standard d.nodes, n.Conforms .standard source d.warnings) ∧
      ∃ args stop, Node.command "_" args (some ⟨7, stop⟩) ∈
        nodesCommands .standard d.nodes := by
  intro source d
  have htok : (⟨Lexeme.start '_', 7⟩ : Token) ∈ tokenize source := by decide +kernel
  obtain ⟨hconform, hscript⟩ := arguments_follow_signatures .standard source
  obtain ⟨args, stop, hmem, -⟩ := hscript _ htok (.inl (by decide))
  exact ⟨htok, by decide +kernel, by decide +kernel, hconform, args, stop, hmem⟩

end Formulary.Markup
