import Formulary.Proofs.Rewriting

/-!
# Scripts with and without braces

A script of one letter or digit may be written with braces or without them, and with
blank space in front of it in the second case: the variables and the written form of
a source stay the same.

Two sources that differ in this have the same lexemes around the script.  The reader
takes different steps for the script itself and then holds the same frames, but for
the command that was just finished.  From there on the two readings are compared step
by step.

* `Tree.braced` puts the arguments of all script marks into braces.  Trees that
  become equal by this are written alike and contribute the same names
  (`treesOutline_braced`).
* `step_alike` says that the reader cannot tell apart states that become equal by
  this, and `readTrees_script_alike` that the two ways to write a script lead to such
  states.
* `script_braces_optional` is the main statement.
-/

namespace Formulary.Markup

open Formulary.Variable

variable {table : CommandTable}

/-! ### Trees with braces around all scripts -/

mutual

/-- A tree in which each argument of a script mark stands in braces, right behind the
mark. -/
def Tree.braced : Tree → Tree
  | .text chars => .text chars
  | .gap lexeme => .gap lexeme
  | .stray => .stray
  | .group body closed => .group (treesBraced body) closed
  | .command head args missing =>
      .command head (argsBraced (isScriptName head.name) args) missing

/-- Trees in a row with braces around all scripts. -/
def treesBraced : List Tree → List Tree
  | [] => []
  | t :: ts => t.braced :: treesBraced ts

/-- The arguments of a command, which is a script mark or is none, with braces around
all scripts. -/
def argsBraced (script : Bool) : List Arg → List Arg
  | [] => []
  | .mk before enclosure body :: rest =>
    .mk (if script then [] else before) (if script then .braces true else enclosure)
        (treesBraced body) ::
      argsBraced script rest

end

theorem treesBraced_eq_map (ts : List Tree) : treesBraced ts = ts.map Tree.braced := by
  induction ts with
  | nil => rfl
  | cons t ts ih => rw [treesBraced, ih, List.map_cons]

theorem argsBraced_append (script : Bool) (args args' : List Arg) :
    argsBraced script (args ++ args') = argsBraced script args ++
      argsBraced script args' := by
  induction args with
  | nil => rfl
  | cons arg args ih =>
      cases arg
      rw [List.cons_append, argsBraced, argsBraced, ih, List.cons_append]

/-- Bracing does not depend on the order of arguments. -/
theorem argsBraced_reverse (script : Bool) (args : List Arg) :
    argsBraced script args.reverse = (argsBraced script args).reverse := by
  induction args with
  | nil => rfl
  | cons arg args ih =>
      cases arg
      simp [argsBraced_append, ih, argsBraced]

mutual

/-- What is braced has no bare script arguments left. -/
@[simp] theorem Tree.braced_braced : (t : Tree) → t.braced.braced = t.braced
  | .text _ => rfl
  | .gap _ => rfl
  | .stray => rfl
  | .group body _ => by simp only [Tree.braced, treesBraced_braced body]
  | .command head args _ => by simp only [Tree.braced, argsBraced_braced _ args]

@[simp] theorem treesBraced_braced :
    (ts : List Tree) → treesBraced (treesBraced ts) = treesBraced ts
  | [] => rfl
  | t :: ts => by simp only [treesBraced, t.braced_braced, treesBraced_braced ts]

@[simp] theorem argsBraced_braced (script : Bool) : (args : List Arg) →
    argsBraced script (argsBraced script args) = argsBraced script args
  | [] => rfl
  | .mk _ _ body :: rest => by
      simp only [argsBraced, treesBraced_braced body, argsBraced_braced script rest]
      cases script <;> rfl

end

mutual

/-- Braces around a script argument add no level, since the argument is one
already. -/
theorem Tree.depth_braced : (t : Tree) → t.braced.depth = t.depth
  | .text _ => rfl
  | .gap _ => rfl
  | .stray => rfl
  | .group body _ => by simp only [Tree.braced, Tree.depth, treesDepth_braced body]
  | .command head args _ => by
      simp only [Tree.braced, Tree.depth, argsDepth_braced _ args]

theorem treesDepth_braced :
    (ts : List Tree) → treesDepth (treesBraced ts) = treesDepth ts
  | [] => rfl
  | t :: ts => by
      simp only [treesBraced, treesDepth, t.depth_braced, treesDepth_braced ts]

theorem argsDepth_braced (script : Bool) : (args : List Arg) →
    argsDepth (argsBraced script args) = argsDepth args
  | [] => rfl
  | .mk _ _ body :: rest => by
      simp only [argsBraced, argsDepth, treesDepth_braced body,
        argsDepth_braced script rest]

end

mutual

/-- Braces around a script argument are not in the outline, as they are not kept. -/
theorem Tree.outline_braced : (t : Tree) → (start start' : Nat) →
    nodeOutline table (t.braced.node start) = nodeOutline table (t.node start')
  | .text _, _, _ => rfl
  | .gap lexeme, _, _ => by
      by_cases h : lexeme.kind = .comment <;>
        simp [Tree.braced, Tree.node, h, nodeOutline]
  | .stray, _, _ => rfl
  | .group body _, start, start' => by
      simp only [Tree.braced, Tree.node, nodeOutline,
        treesOutline_braced body _ (start' + 1)]
  | .command head args _, start, start' => by
      simp only [Tree.braced, Tree.node, nodeOutline,
        argsOutline_braced head.name args _ (start' + head.text.length)]

/-- **Braces around scripts do not show in the outline of trees.** -/
theorem treesOutline_braced : (ts : List Tree) → (start start' : Nat) →
    nodesOutline table (treesNodes start (treesBraced ts)) =
      nodesOutline table (treesNodes start' ts)
  | [], _, _ => rfl
  | t :: ts, start, start' => by
      simp only [treesBraced, treesNodes, nodesOutline, t.outline_braced start start',
        treesOutline_braced ts _ (start' + t.width)]

/-- The marks around the arguments of a script mark are dropped, whichever they
are. -/
theorem argsOutline_braced (name : String) : (args : List Arg) → (start start' : Nat) →
    argumentsOutline table (dropsMarks table name)
        (argsArguments start (argsBraced (isScriptName name) args)) =
      argumentsOutline table (dropsMarks table name) (argsArguments start' args)
  | [], _, _ => rfl
  | .mk before enclosure body :: rest, start, start' => by
      simp only [argsBraced, argsArguments, argumentsOutline]
      rw [treesOutline_braced body _
        (start' + (lexemesText before).length + enclosure.opening.length),
        argsOutline_braced name rest _
          (start' + (argsChars [.mk before enclosure body]).length)]
      -- The marks around the argument of a script mark are dropped, and no others
      -- have changed.
      cases hname : isScriptName name <;> simp [dropsMarks, hname]

end

/-! ### States that the reader cannot tell apart -/

/-- A waiting command with braces around all scripts. -/
def Pending.braced (p : Pending) : Pending :=
  { p with args := argsBraced (isScriptName p.head.name) p.args }

/-- A frame with braces around all scripts. -/
def Frame.braced : Frame → Frame
  | .group mode done => .group mode (treesBraced done)
  | .braces p done => .braces p.braced (treesBraced done)
  | .brackets p done => .brackets p.braced (treesBraced done)
  | .pending p => .pending p.braced

/-- A state with braces around all scripts. -/
def State.braced (s : State) : State :=
  ⟨s.frames.map Frame.braced, treesBraced s.root⟩

@[simp] theorem treesBraced_append (ts us : List Tree) :
    treesBraced (ts ++ us) = treesBraced ts ++ treesBraced us := by
  simp [treesBraced_eq_map]

@[simp] theorem treesBraced_reverse (ts : List Tree) :
    treesBraced ts.reverse = (treesBraced ts).reverse := by
  simp [treesBraced_eq_map]

@[simp] theorem treesBraced_gaps (gap : List Lexeme) :
    treesBraced (gap.map Tree.gap) = gap.map Tree.gap := by
  simp [treesBraced_eq_map, Tree.braced]

@[simp] theorem Pending.mode_braced (p : Pending) : p.braced.mode = p.mode := rfl

@[simp] theorem Pending.slots_braced (p : Pending) : p.braced.slots = p.slots := rfl

@[simp] theorem Pending.gap_braced (p : Pending) : p.braced.gap = p.gap := rfl

@[simp] theorem Pending.braced_braced (p : Pending) : p.braced.braced = p.braced := by
  simp [Pending.braced]

/-- A command that is completed may be braced before or after. -/
theorem Pending.tree_braced (p : Pending) : p.braced.tree = p.tree.braced := by
  simp [Pending.tree, Pending.braced, Tree.braced, argsBraced_reverse]

/-- What encloses an argument of a script mark is forgotten again. -/
theorem Pending.fill_braced (p : Pending) (enclosure : Enclosure) (body : List Tree) :
    (p.braced.fill enclosure (treesBraced body)).braced =
      (p.fill enclosure body).braced := by
  simp [Pending.braced, Pending.fill, argsBraced]

@[simp] theorem Frame.braced_group (mode : Mode) (done : List Tree) :
    (Frame.group mode done).braced = .group mode (treesBraced done) := rfl

@[simp] theorem Frame.braced_braces (p : Pending) (done : List Tree) :
    (Frame.braces p done).braced = .braces p.braced (treesBraced done) := rfl

@[simp] theorem Frame.braced_brackets (p : Pending) (done : List Tree) :
    (Frame.brackets p done).braced = .brackets p.braced (treesBraced done) := rfl

@[simp] theorem Frame.braced_pending (p : Pending) :
    (Frame.pending p).braced = .pending p.braced := rfl

@[simp] theorem Frame.braced_braced (f : Frame) : f.braced.braced = f.braced := by
  cases f <;> simp

@[simp] theorem State.braced_mk (fs : List Frame) (root : List Tree) :
    (State.mk fs root).braced = ⟨fs.map Frame.braced, treesBraced root⟩ := rfl

/-! Each of the functions that the reader is made of gives states that are equal up
to braces, whether it is applied to a state or to the state with braces. -/

/-- Handing a tree to an open construct commutes with bracing. -/
theorem Frame.receive_braced (f : Frame) (t : Tree) (gap : List Lexeme) :
    (f.braced.receive t.braced gap).braced = (f.receive t gap).braced := by
  cases f with
  | pending p => simp [Frame.receive, Pending.fill, Pending.braced,
      argsBraced, treesBraced]
  | _ => simp [Frame.receive, treesBraced]

/-- Handing a tree to the innermost open construct commutes with bracing. -/
theorem State.receive_braced (s : State) (t : Tree) (gap : List Lexeme) :
    (s.braced.receive t.braced gap).braced = (s.receive t gap).braced := by
  obtain ⟨_ | ⟨f, below⟩, root⟩ := s
  · simp [State.receive, treesBraced]
  · simp [State.receive, Frame.receive_braced]

/-- Whether a construct is complete does not depend on the braces of scripts in
it. -/
theorem Frame.closeBefore?_braced (next : Option Lexeme) (f : Frame) :
    (f.braced.closeBefore? next).map (Prod.map Tree.braced id) =
      (f.closeBefore? next).map (Prod.map Tree.braced id) := by
  cases f with
  | group mode done =>
      simp only [Frame.braced_group, Frame.closeBefore?]
      split_ifs <;> simp [Tree.braced]
  | braces p done =>
      have hfill := p.fill_braced (.braces false) done.reverse
      simp only [Frame.braced_braces, Frame.closeBefore?]
      split_ifs <;> simp [← Pending.tree_braced, ← hfill]
  | brackets p done =>
      have hfill := p.fill_braced (.brackets false) done.reverse
      simp only [Frame.braced_brackets, Frame.closeBefore?]
      split_ifs <;> simp [← Pending.tree_braced, ← hfill]
  | pending p =>
      simp only [Frame.braced_pending, Frame.closeBefore?,
        Pending.slots_braced, Pending.gap_braced, Pending.tree_braced]
      split_ifs <;> simp

/-- States that are alike stay so when they are given trees that are alike. -/
theorem State.receive_alike {s s' : State} (h : s.braced = s'.braced) {t t' : Tree}
    (ht : t.braced = t'.braced) (gap : List Lexeme) :
    (s.receive t gap).braced = (s'.receive t' gap).braced := by
  rw [← State.receive_braced, h, ht, State.receive_braced]

/-- A tree that is handed over opens and closes nothing. -/
theorem State.length_frames_receive (s : State) (t : Tree) (gap : List Lexeme) :
    (s.receive t gap).frames.length = s.frames.length := by
  obtain ⟨frames, root⟩ := s
  cases frames <;> rfl

/-- Frames that are equal up to braces stay open or close in front of the same
lexemes, and close to trees that are equal up to braces. -/
theorem Frame.closeBefore?_alike {f f' : Frame} (h : f.braced = f'.braced)
    (next : Option Lexeme) :
    (f.closeBefore? next = none ∧ f'.closeBefore? next = none) ∨
      ∃ t t' gap, f.closeBefore? next = some (t, gap) ∧
        f'.closeBefore? next = some (t', gap) ∧
        t.braced = t'.braced := by
  have hclose := Frame.closeBefore?_braced next f
  rw [h, Frame.closeBefore?_braced] at hclose
  rcases hf : f.closeBefore? next with _ | ⟨t, gap⟩ <;>
    rcases hf' : f'.closeBefore? next with _ | ⟨t', gap'⟩ <;> simp [hf, hf'] at hclose
  · exact .inl ⟨rfl, rfl⟩
  · obtain ⟨htree, rfl⟩ := hclose
    exact .inr ⟨t, t', gap', rfl, rfl, htree.symm⟩

/-- States that are equal up to braces settle to such states. -/
theorem settle_alike {s s' : State} (h : s.braced = s'.braced) (next : Option Lexeme) :
    (settle next s).braced = (settle next s').braced := by
  -- A frame that closes is handed to the one below it, so the number of frames gets
  -- smaller.
  induction hn : s.frames.length generalizing s s' with
  | zero =>
      obtain ⟨frames, root⟩ := s
      obtain rfl := List.length_eq_zero_iff.mp hn
      obtain ⟨frames', root'⟩ := s'
      obtain rfl : frames' = [] := by simpa using (congrArg State.frames h).symm
      exact h
  | succ n ih =>
      obtain ⟨_ | ⟨f, fs⟩, root⟩ := s
      · simp at hn
      obtain ⟨_ | ⟨f', fs'⟩, root'⟩ := s'
      · simp at h
      obtain ⟨⟨hf, hfs⟩, hroot⟩ :
          (f.braced = f'.braced ∧ fs.map Frame.braced = fs'.map Frame.braced) ∧
          treesBraced root = treesBraced root' := by simpa using h
      have hbelow : (State.mk fs root).braced = (State.mk fs' root').braced := by
        simp [hfs, hroot]
      rcases Frame.closeBefore?_alike hf next with ⟨hstay, hstay'⟩
        | ⟨t, t', gap, hclose, hclose', ht⟩
      · rw [settle_of_stay hstay, settle_of_stay hstay', h]
      · rw [settle_of_close hclose, settle_of_close hclose']
        refine ih (State.receive_alike hbelow ht gap) ?_
        rw [State.length_frames_receive]
        simpa using hn

/-! ### Taking a lexeme -/

/-- Text joins the text before it, which has no scripts. -/
theorem addText_braced (mode : Mode) (l : Lexeme) (done : List Tree) :
    addText mode l (treesBraced done) = treesBraced (addText mode l done) := by
  cases done with
  | nil => rfl
  | cons t done =>
      cases t with
      | text chars =>
          simp only [treesBraced, Tree.braced, addText]
          split_ifs <;> rfl
      | _ => rfl

/-- Whether text goes on is a matter of the last tree, and text is left alone. -/
theorem runIsOpen_braced (mode : Mode) (done : List Tree) :
    runIsOpen mode (treesBraced done) = runIsOpen mode done := by
  cases done with
  | nil => rfl
  | cons t done => cases t <;> rfl

/-- Taking a lexeme as an argument commutes with bracing. -/
theorem takeArgument_braced (p : Pending) (below : List Frame)
    (root : List Tree) (l : Lexeme) :
    (takeArgument table p.braced (below.map Frame.braced) (treesBraced root) l).braced =
      (takeArgument table p below root l).braced := by
  simp only [takeArgument, Pending.slots_braced, Pending.mode_braced]
  split
  · simp [Pending.braced]
  · simp [Pending.braced, Pending.fill, argsBraced]
  · split_ifs <;> simp [Pending.braced, Pending.fill, argsBraced]
  · simp

theorem takeText_braced (s : State) (l : Lexeme) :
    (takeText l s.braced).braced = (takeText l s).braced := by
  obtain ⟨_ | ⟨f, fs⟩, root⟩ := s
  · simp [takeText, addText_braced]
  · cases f with
    | brackets p done =>
        have hfill := p.fill_braced (.brackets true) done.reverse
        simp only [State.braced_mk, List.map_cons, Frame.braced_brackets, takeText,
          Pending.mode_braced, runIsOpen_braced]
        split_ifs <;> simp [addText_braced, ← hfill]
    | _ => simp [takeText, addText_braced]

theorem State.push_braced (s : State) (t : Tree) :
    (s.braced.push t.braced).braced = (s.push t).braced := by
  rw [State.push_eq_receive, State.push_eq_receive, State.receive_braced]

theorem takeCloseBrace_braced (s : State) :
    (takeCloseBrace s.braced).braced = (takeCloseBrace s).braced := by
  obtain ⟨_ | ⟨f, fs⟩, root⟩ := s
  · exact State.push_braced ⟨[], root⟩ .stray
  · cases f with
    | group mode done =>
        have hpush := State.push_braced ⟨fs, root⟩ (.group done.reverse true)
        simpa [takeCloseBrace, Tree.braced] using hpush
    | braces p done =>
        have hfill := p.fill_braced (.braces true) done.reverse
        simp [takeCloseBrace, ← hfill]
    | brackets p done => exact State.push_braced ⟨.brackets p done :: fs, root⟩ .stray
    | pending p => exact State.push_braced ⟨.pending p :: fs, root⟩ .stray

/-- What may end the innermost construct is not a matter of braces around scripts. -/
theorem State.scope?_braced (s : State) : s.braced.scope? = s.scope? := by
  obtain ⟨_ | ⟨f, fs⟩, root⟩ := s
  · rfl
  · cases f <;> rfl

/-- The mode is that of the open constructs and is left alone. -/
theorem State.mode_braced (s : State) : s.braced.mode = s.mode := by
  obtain ⟨_ | ⟨f, fs⟩, root⟩ := s
  · rfl
  · cases f <;> rfl

theorem State.open_braced (s : State) (f : Frame) :
    (s.braced.open f).braced = (s.open f).braced := by
  simp [State.open, State.braced]

/-- **One lexeme leads from states that are alike to states that are alike.** -/
theorem take_braced (s : State) (l : Lexeme) :
    (take table s.braced l).braced = (take table s l).braced := by
  cases hplace : s.scope? with
  | none =>
      obtain ⟨_ | ⟨f, fs⟩, root⟩ := s
      · cases hplace
      · cases f with
        | pending p => exact takeArgument_braced p fs root l
        | _ => cases hplace
  | some place =>
      have hplace' : s.braced.scope? = some place := s.scope?_braced.trans hplace
      rw [take_of_scope hplace, take_of_scope hplace', State.mode_braced]
      split
      · exact State.open_braced s _
      · exact takeCloseBrace_braced s
      · exact State.open_braced s _
      · exact State.open_braced s _
      · exact State.open_braced s _
      · exact State.push_braced s (.plain l)
      · exact takeText_braced s l
      · exact takeText_braced s l
      · exact takeText_braced s l
      · exact State.push_braced s (.gap l)
      · exact State.push_braced s (.gap l)

/-- Layout leads from states that are alike to states that are alike. -/
theorem takeGap_braced (s : State) (l : Lexeme) :
    (takeGap s.braced l).braced = (takeGap s l).braced := by
  obtain ⟨_ | ⟨f, fs⟩, root⟩ := s
  · exact State.push_braced ⟨[], root⟩ (.gap l)
  · cases f with
    | pending p => simp [takeGap, Pending.braced]
    | group mode done => exact State.push_braced ⟨.group mode done :: fs, root⟩ (.gap l)
    | braces p done => exact State.push_braced ⟨.braces p done :: fs, root⟩ (.gap l)
    | brackets p done => exact State.push_braced ⟨.brackets p done :: fs, root⟩ (.gap l)

/-- **The reader does not see what encloses a script**: states that are equal up to
braces are so after the next lexeme. -/
theorem step_alike {s s' : State} (h : s.braced = s'.braced) (l : Lexeme) :
    (step table s l).braced = (step table s' l).braced := by
  unfold step
  split_ifs
  · rw [← takeGap_braced, h, takeGap_braced]
  · rw [← take_braced, settle_alike h, take_braced]

/-- **States that are alike give the same trees up to braces of scripts**, by
induction on what is left to read. -/
theorem run_alike {s s' : State} (h : s.braced = s'.braced) (rest : List Lexeme) :
    treesBraced (run table s rest) = treesBraced (run table s' rest) := by
  induction rest generalizing s s' with
  | nil =>
      have hroot := congrArg State.root (settle_alike h none)
      simp only [State.braced] at hroot
      simp [run_nil, State.finish, hroot]
  | cons l rest ih => exact ih (step_alike h l)

/-! ### A script mark -/

theorem not_isGap_of_script {l : Lexeme}
    (h : l.kind = .subscript ∨ l.kind = .superscript) :
    l.isGap = false := by
  rcases h with h | h <;> simp [Lexeme.isGap, h]

/-- A script mark is no argument of anything. -/
theorem accepts_script {l : Lexeme} (h : l.kind = .subscript ∨ l.kind = .superscript)
    (slots : List Slot) : accepts l slots = false := by
  cases hslots : skipOptional l slots with
  | nil => simp [accepts, hslots]
  | cons slot left =>
      rw [accepts_of_skipOptional hslots]
      cases slot with
      | optional =>
          have hbracket := (eq_of_skipOptional_optional hslots).2
          rcases h with h | h <;> simp [isOpenBracket, h] at hbracket
      | delimiter => rcases h with h | h <;> simp [isDelimiter, h]
      | mandatory => rcases h with h | h <;> simp [startsArgument, h]

/-- No command waits any longer when a script mark is taken. -/
theorem exists_scope_settle_script {l : Lexeme}
    (h : l.kind = .subscript ∨ l.kind = .superscript) (s : State) :
    ∃ place, (settle (some l) s).scope? = some place := by
  -- Only waiting commands close in front of a script mark, and all of those do.
  induction hn : s.frames.length generalizing s with
  | zero =>
      obtain ⟨frames, root⟩ := s
      obtain rfl := List.length_eq_zero_iff.mp hn
      exact ⟨_, rfl⟩
  | succ n ih =>
      obtain ⟨_ | ⟨f, fs⟩, root⟩ := s
      · simp at hn
      cases hplace : f.scope? with
      | some place =>
          have hclose : l.kind ≠ .closeBrace := by rcases h with h | h <;> simp [h]
          refine ⟨place, ?_⟩
          rw [settle_of_scope (s := ⟨f :: fs, root⟩) hplace fun hkind =>
            absurd hkind hclose]
          exact hplace
      | none =>
          cases f with
          | pending p =>
              have hclose : (Frame.pending p).closeBefore? (some l) =
                  some (p.tree, p.gap) := by
                simp [Frame.closeBefore?, accepts_script h]
              rw [settle_of_close hclose]
              refine ih _ ?_
              rw [State.length_frames_receive]
              simpa using hn
          | _ => simp [Frame.scope?] at hplace

/-- A script mark with its arguments is taken by what is left open in front of it. -/
theorem run_script {l : Lexeme}
    (h : l.kind = .subscript ∨ l.kind = .superscript) {args : List Arg} {missing : Bool}
    {rest : List Lexeme}
    (hargs : argsRead table .math [.mandatory] rest missing args) (s : State) :
    run table s (l :: (argsLexemes args ++ rest)) =
      run table ((settle (some l) s).receive (.command l args missing) []) rest := by
  obtain ⟨⟨scope, mode⟩, hplace⟩ := exists_scope_settle_script h s
  have hword : l.kind ≠ .controlWord := by rcases h with h | h <;> simp [h]
  have hreads : (Tree.command l args missing).Reads table scope mode rest := by
    simp only [Tree.Reads, argumentMode, argumentSlots, if_neg hword]
    exact .inr ⟨.inr h, hargs⟩
  have hready : (settle (some l) s).Ready mode (l :: (argsLexemes args ++ rest)) := by
    intro m hm htext
    obtain rfl : l = m := by simpa using hm
    rcases h with h | h <;> simp [h, LexemeKind.isText] at htext
  -- Settling twice is settling once.
  have hstep : step table (settle (some l) s) l = step table s l := by
    rw [step_of_not_isGap (not_isGap_of_script h),
      step_of_not_isGap (not_isGap_of_script h),
      settle_of_scope hplace fun hkind => by rcases h with h | h <;> simp [h] at hkind]
  have hrun := Tree.run_lexemes (.command l args missing) _ scope mode rest
    hplace hready hreads
  rw [← State.receive_eq_withDone hplace] at hrun
  rw [← hrun, run_cons, ← hstep]
  rfl

/-- The lexemes of a script of one character, in braces or not, are read to trees
that are equal up to braces, whatever stands in front of them and behind them. -/
theorem readTrees_script_alike {l : Lexeme}
    (h : l.kind = .subscript ∨ l.kind = .superscript)
    (hname : isScriptName l.name = true) {t : Char}
    (ht : (Lexeme.startKind t).isText = true) {gaps : List Lexeme}
    (hgaps : ∀ g ∈ gaps, g.isGap = true) (ls rest : List Lexeme) :
    treesBraced (readTrees table (ls ++ l :: (gaps ++ Lexeme.start t :: rest))) =
      treesBraced (readTrees table
        (ls ++ l :: Lexeme.start '{' :: Lexeme.start t ::
          Lexeme.start '}' :: rest)) := by
  have hbare : argsRead table .math [.mandatory] rest false
      [.mk gaps .bare [.text [t]]] := by
    simp only [argsRead]
    exact ⟨hgaps, [], bareReads_character ht .math _, fun _ _ => rfl, rfl⟩
  have hbraces : argsRead table .math [.mandatory] rest false
      [.mk [] (.braces true) [.text [t]]] := by
    refine argsRead_braced (fun tail => ?_) rest
    have hreads : (atom (Lexeme.start t)).Reads table .braces .math
        (Lexeme.start '}' :: tail) :=
      atom_reads_braces (by rw [atom_start ht]; rfl) (.inl ht) .math tail
    rw [atom_start ht] at hreads
    simpa only [treesRead, and_true, treesLexemes, List.nil_append] using hreads
  -- After the front both readers are in one state, and each then receives a script.
  have hsplit (ms : List Lexeme) : readTrees table (ls ++ ms) =
      run table (ls.foldl (step table) State.initial) ms := by
    rw [readTrees, List.foldl_append]
    rfl
  have hrun := run_script h hbare (ls.foldl (step table) State.initial)
  have hrun' := run_script h hbraces (ls.foldl (step table) State.initial)
  simp only [argsLexemes, Enclosure.opening, Enclosure.closing,
    treesLexemes, Tree.lexemes, charLexemes_cons, charLexemes_nil, List.nil_append,
    List.append_nil, List.append_assoc, List.cons_append, if_true] at hrun hrun'
  rw [hsplit, hsplit, hrun, hrun']
  refine run_alike (State.receive_alike rfl ?_ []) rest
  simp [Tree.braced, argsBraced, hname, treesBraced]

/-! ### The lexemes around a script -/

/-- Lexemes in a row are cut as they stand if those that meet do not grow
together. -/
theorem IsCut.append {ls ms : List Lexeme} (h : IsCut ls) (h' : IsCut ms)
    (hapart : ∀ l ∈ ls.getLast?, ∀ m ∈ ms.head?, l.Apart m) : IsCut (ls ++ ms) := by
  obtain ⟨-, hproper, hchain⟩ := lex_eq_iff.mp h
  obtain ⟨-, hproper', hchain'⟩ := lex_eq_iff.mp h'
  refine lex_eq_iff.mpr ⟨rfl, List.forall_mem_append.mpr ⟨hproper, hproper'⟩, ?_⟩
  exact List.isChain_append.mpr ⟨hchain, hchain', hapart⟩

/-- Blank characters are cut into blanks. -/
theorem kind_of_mem_lex_blank {ws : List Char} (hws : ∀ d ∈ ws, Text.isBlank d = true) :
    ∀ l ∈ lex ws, l.kind = .blank := by
  intro l hl
  have hproper := lex_proper ws l hl
  obtain ⟨c, cs, htext⟩ := List.exists_cons_of_ne_nil hproper.text_ne_nil
  have hmem : c ∈ lexemesText (lex ws) := List.mem_flatMap.mpr ⟨l, hl, by simp [htext]⟩
  rw [lexemesText_lex] at hmem
  exact ((hproper.head_iff (by simp [htext])).1).mp (hws c hmem)

/-- Only a comment and a lone backslash take in a character that is neither a blank
nor a letter. -/
theorem apart_start {l : Lexeme}
    (hl : l.kind ≠ .comment ∧ l ≠ ⟨.other, ['\\']⟩) {c : Char}
    (hblank : Text.isBlank c = false) (halpha : c.isAlpha = false) :
    l.Apart (Lexeme.start c) := by
  have hproper := Lexeme.start_proper c
  obtain ⟨hkind, hletter⟩ := hproper.head_iff (c := c) rfl
  rw [apart_iff_of_proper hproper, ne_eq, ne_eq, ← hkind, ← hletter]
  simp [hl, hblank, halpha]

/-- An ASCII letter or digit starts a lexeme of its own kind. -/
theorem startKind_of_isAlphanum {t : Char} (ht : t.isAlphanum = true) :
    Lexeme.startKind t = .letter ∨ Lexeme.startKind t = .digit := by
  rw [Char.isAlphanum, Bool.or_eq_true] at ht
  exact ht.imp startKind_of_isAlpha startKind_of_isDigit

theorem isText_of_isAlphanum {t : Char} (ht : t.isAlphanum = true) :
    (Lexeme.startKind t).isText = true := by
  rcases startKind_of_isAlphanum ht with h | h <;> rw [h] <;> rfl

/-- A letter or a digit is a lexeme whatever follows it. -/
theorem IsCut.alphanum {rest : List Lexeme} (h : IsCut rest) {t : Char}
    (ht : t.isAlphanum = true) :
    IsCut (Lexeme.start t :: rest) := by
  have hcut : IsCut (charLexemes [t] ++ rest) := h.chars fun d hd => by
    obtain rfl := List.mem_singleton.mp hd
    refine ⟨isText_of_isAlphanum ht, ?_⟩
    rintro rfl
    exact absurd ht (by decide)
  exact hcut

/-- A text that does not take in a mark behind it, such as that of a script or a
brace. -/
def EndsBeforeMark (p : List Char) : Prop :=
  ∀ l ∈ (lex p).getLast?, l.kind ≠ .comment ∧ l ≠ ⟨.other, ['\\']⟩

namespace EndsBeforeMark

variable {p : List Char} {c t : Char}

/-- Where the last token is neither a comment nor a lone backslash, a mark may
follow. -/
theorem of_tokenize {source : String} (h : ∀ tok ∈ (tokenize source).getLast?,
    tok.lexeme.kind ≠ .comment ∧ tok.lexeme ≠ ⟨.other, ['\\']⟩) :
    EndsBeforeMark source.toList := by
  rw [EndsBeforeMark, ← map_lexeme_placeFrom 0 (lex source.toList), List.getLast?_map]
  intro l hl
  obtain ⟨tok, htok, rfl⟩ := Option.map_eq_some_iff.mp hl
  exact h tok htok

/-- A mark that is neither blank nor a letter cuts what stands in front of it. -/
theorem append (h : EndsBeforeMark p) (hblank : Text.isBlank c = false)
    (halpha : c.isAlpha = false) {rest : List Lexeme}
    (hmark : IsCut (Lexeme.start c :: rest)) :
    IsCut (lex p ++ Lexeme.start c :: rest) := by
  refine (isCut_lex p).append hmark fun l hl m hm => ?_
  obtain rfl : Lexeme.start c = m := by simpa using hm
  exact apart_start (h l hl) hblank halpha

/-- A script mark is a lexeme of its own, behind the lexemes of what is in front of
it. -/
theorem isCut (h : EndsBeforeMark p) (hc : c = '_' ∨ c = '^') {rest : List Lexeme}
    (hrest : IsCut rest) : IsCut (lex p ++ Lexeme.start c :: rest) := by
  rcases hc with rfl | rfl
  · exact h.append (by decide) (by decide) (hrest.start rfl (by decide))
  · exact h.append (by decide) (by decide) (hrest.start rfl (by decide))

/-- The lexemes of a source with a script without braces. -/
theorem lex_bare (h : EndsBeforeMark p) (hc : c = '_' ∨ c = '^')
    (ht : t.isAlphanum = true) {ws : List Char}
    (hws : ∀ d ∈ ws, Text.isBlank d = true) (q : List Char) :
    lex (p ++ c :: (ws ++ t :: q)) =
      lex p ++ Lexeme.start c :: (lex ws ++ Lexeme.start t :: lex q) := by
  have hblank : IsCut (lex ws ++ Lexeme.start t :: lex q) := by
    refine (isCut_lex ws).append ((isCut_lex q).alphanum ht) fun l hl m hm => ?_
    obtain rfl : Lexeme.start t = m := by simpa using hm
    have hmem := List.mem_of_getLast? hl
    have hkind := kind_of_mem_lex_blank hws l hmem
    refine (apart_iff (isTidy_of_blank (lex_proper ws l hmem) hkind)
      (Lexeme.start_proper t)).mpr ?_
    rcases startKind_of_isAlphanum ht with h | h <;> simp [Lexeme.start, h, hkind]
  simpa [IsCut, lexemesText_lex, Lexeme.start] using h.isCut hc hblank

/-- The lexemes of a source with a script in braces. -/
theorem lex_braced (h : EndsBeforeMark p) (hc : c = '_' ∨ c = '^')
    (ht : t.isAlphanum = true) (q : List Char) :
    lex (p ++ c :: '{' :: t :: '}' :: q) =
      lex p ++ Lexeme.start c :: Lexeme.start '{' :: Lexeme.start t ::
        Lexeme.start '}' :: lex q := by
  have hclose : IsCut (Lexeme.start '}' :: lex q) := (isCut_lex q).start rfl (by decide)
  have hopen : IsCut
      (Lexeme.start '{' :: Lexeme.start t :: Lexeme.start '}' :: lex q) :=
    (hclose.alphanum ht).start rfl (by decide)
  simpa [IsCut, lexemesText_lex, Lexeme.start] using h.isCut hc hopen

/-- A source with a script in braces and one with the script without them are parsed
to trees that are equal up to braces. -/
theorem parse_alike (h : EndsBeforeMark p) (hc : c = '_' ∨ c = '^')
    (ht : t.isAlphanum = true) {ws : List Char} (hws : ∀ d ∈ ws, Text.isBlank d = true)
    (q : List Char) {bare braced : String}
    (hbare : bare.toList = p ++ c :: (ws ++ t :: q))
    (hbraced : braced.toList = p ++ c :: '{' :: t :: '}' :: q) :
    treesBraced (parse table bare).trees = treesBraced (parse table braced).trees := by
  have hkind : (Lexeme.start c).kind = .subscript ∨
      (Lexeme.start c).kind = .superscript := by
    rcases hc with rfl | rfl <;> decide
  have hname : isScriptName (Lexeme.start c).name = true := by
    rcases hc with rfl | rfl <;> decide
  have hgaps : ∀ g ∈ lex ws, g.isGap = true := fun g hg => by
    simp [Lexeme.isGap, kind_of_mem_lex_blank hws g hg]
  simp only [parse, hbare, hbraced, h.lex_bare hc ht hws, h.lex_braced hc ht]
  exact readTrees_script_alike hkind hname (isText_of_isAlphanum ht) hgaps _ _

end EndsBeforeMark

end Formulary.Markup

namespace Formulary.Variable

open Formulary.Markup

/-- Sources whose trees are equal up to braces have the same variables and are
written alike. -/
theorem same_of_braced_eq {table : CommandTable} {source source' : String}
    (h : treesBraced (parse table source).trees =
      treesBraced (parse table source').trees) :
    variablesOfSource table source = variablesOfSource table source' ∧
      rebuild table source = rebuild table source' := by
  have hdepth : (parse table source).depth = (parse table source').depth := by
    rw [Document.depth, ← treesDepth_braced, h, treesDepth_braced, Document.depth]
  have houtline : nodesOutline table (parse table source).nodes =
      nodesOutline table (parse table source').nodes := by
    rw [Document.nodes, ← treesOutline_braced _ 0 0, h,
      treesOutline_braced _ 0 0, Document.nodes]
  constructor
  · apply variablesOfSource_congr hdepth
    rw [← nodesNames_outline, houtline, nodesNames_outline]
  · apply rebuild_congr hdepth
    rw [← nodesWritten_outline, houtline, nodesWritten_outline]

/-- **Braces around a script of one character are optional**, whatever stands in
front of the script and behind it: groups and arguments may be open there, in math or
in text, commands may wait for arguments, and digits may follow.  Without braces
there may be blank space in front of the character.  Only a comment or a lone
backslash at the end of what is in front would take in the script mark. -/
theorem script_braces_optional (table : CommandTable) (p q w : String) (c t : Char)
    (hc : c = '_' ∨ c = '^') (ht : t.isAlphanum = true)
    (hw : ∀ d ∈ w.toList, Text.isBlank d = true)
    (hend : ∀ tok ∈ (tokenize p).getLast?,
      tok.lexeme.kind ≠ .comment ∧ tok.lexeme ≠ ⟨.other, ['\\']⟩) :
    let bare := p ++ String.ofList [c] ++ w ++ String.ofList [t] ++ q
    let braced := p ++ String.ofList [c, '{', t, '}'] ++ q
    variablesOfSource table bare = variablesOfSource table braced ∧
      rebuild table bare = rebuild table braced := by
  intro bare braced
  have hfront : EndsBeforeMark p.toList := .of_tokenize hend
  apply same_of_braced_eq
  exact hfront.parse_alike hc ht hw q.toList (by simp [bare]) (by simp [braced])

/-- A script behind a command that waits for its arguments, in an open group in text,
with digits behind the character. -/
theorem script_braces_optional_waiting :
    (∀ tok ∈ (tokenize "y\\text\x7b\\frac").getLast?,
        tok.lexeme.kind ≠ .comment ∧ tok.lexeme ≠ ⟨.other, ['\\']⟩) ∧
      rebuild .standard "y\\text\x7b\\frac_\n 23x" =
        rebuild .standard "y\\text\x7b\\frac_\x7b2\x7d3x" ∧
      variablesOfSource .standard "y\\text\x7b\\frac_\n 23x" = ["x", "y"] := by
  have hend : ∀ tok ∈ (tokenize "y\\text\x7b\\frac").getLast?,
      tok.lexeme.kind ≠ .comment ∧ tok.lexeme ≠ ⟨.other, ['\\']⟩ := by decide +kernel
  have hblank : "\n ".toList.all Text.isBlank = true := by decide
  have hsame := script_braces_optional .standard "y\\text\x7b\\frac" "3x"
    "\n " '_' '2' (.inl rfl)
    (by decide) (List.all_eq_true.mp hblank) hend
  refine ⟨hend, ?_, by decide +kernel⟩
  have hbare : "y\\text\x7b\\frac" ++ String.ofList ['_'] ++ "\n " ++
      String.ofList ['2'] ++ "3x" =
      "y\\text\x7b\\frac_\n 23x" := by decide +kernel
  have hbraced : "y\\text\x7b\\frac" ++ String.ofList ['_', '{', '2', '}'] ++ "3x" =
      "y\\text\x7b\\frac_\x7b2\x7d3x" := by decide +kernel
  rw [← hbare, ← hbraced]
  exact hsame.2

end Formulary.Variable
