import Formulary.Proofs.Grammar

/-!
# The reader follows the grammar

The reader keeps a stack of open frames and closes them as late as it can: a command
that waits for arguments stays on the stack until a lexeme comes that it cannot use.
So the state after the lexemes of a tree is in general not the one in which the tree
is finished.  What holds is that the two states cannot be told apart by what follows,
and this is how the reader is compared with the grammar here: `run table s rest` is
what comes out in the end when `rest` is read from the state `s`.

* `Tree.run_lexemes` reads the lexemes of a tree of the grammar, by induction on the
  tree.
* `readTrees_treesLexemes` does so for a whole source.
-/

namespace Formulary.Markup

variable {table : CommandTable}

/-! ### Runs -/

/-- What comes out when the rest of a source is read from a state. -/
def run (table : CommandTable) (s : State) (rest : List Lexeme) : List Tree :=
  (rest.foldl (step table) s).finish

theorem run_nil (s : State) : run table s [] = s.finish := rfl

theorem run_cons (s : State) (l : Lexeme) (rest : List Lexeme) :
    run table s (l :: rest) = run table (step table s l) rest := rfl

theorem step_of_isGap {l : Lexeme} (hl : l.isGap = true) (s : State) :
    step table s l = takeGap s l := by
  rw [step, if_pos hl]

/-- A lexeme that is no layout first closes what it completes, and is then taken. -/
theorem step_of_not_isGap {l : Lexeme} (hl : l.isGap = false) (s : State) :
    step table s l = take table (settle (some l) s) l := by
  rw [step, hl]
  rfl

/-! ### Closing a frame -/

/-- The state whose innermost frame gets a finished tree and the blanks and comments
after it. -/
def State.receive (t : Tree) (gap : List Lexeme) (s : State) : State :=
  match s.frames with
  | [] => ⟨[], (gap.map Tree.gap).reverse ++ t :: s.root⟩
  | f :: below => ⟨f.receive t gap :: below, s.root⟩

/-- Handing over is settling after the tree is received, which lets proofs speak of
one of the two. -/
theorem handOver_eq_settle (next : Option Lexeme) (t : Tree) (gap : List Lexeme)
    (root : List Tree) (fs : List Frame) :
    handOver next t gap root fs = settle next (State.receive t gap ⟨fs, root⟩) := by
  cases fs with
  | nil => rfl
  | cons f below => rfl

/-- A frame that cannot stay open hands its tree over before anything else
happens. -/
theorem settle_of_close {next : Option Lexeme} {f : Frame}
    {t : Tree} {gap : List Lexeme} (h : f.closeBefore? next = some (t, gap))
    (fs : List Frame) (root : List Tree) :
    settle next ⟨f :: fs, root⟩ = settle next (State.receive t gap ⟨fs, root⟩) := by
  rw [← handOver_eq_settle]
  simp only [settle, h]

theorem settle_of_stay {next : Option Lexeme} {f : Frame}
    (h : f.closeBefore? next = none) (fs : List Frame) (root : List Tree) :
    settle next ⟨f :: fs, root⟩ = ⟨f :: fs, root⟩ := by
  simp only [settle, h]

/-- A construct that is complete before the next lexeme may be closed at once. -/
theorem run_of_close {f : Frame} {t : Tree} {rest : List Lexeme}
    (hgap : ∀ l ∈ rest.head?, l.isGap = false)
    (h : f.closeBefore? rest.head? = some (t, [])) (fs : List Frame)
    (root : List Tree) :
    run table ⟨f :: fs, root⟩ rest =
      run table (State.receive t [] ⟨fs, root⟩) rest := by
  cases rest with
  | nil =>
      rw [List.head?_nil] at h
      simp only [run_nil, State.finish, settle_of_close h]
  | cons l rest =>
      rw [List.head?_cons] at h
      have hl : l.isGap = false := hgap l rfl
      simp only [run_cons, step_of_not_isGap hl, settle_of_close h]

/-- Layout behind a tree may be received together with it. -/
theorem takeGap_receive (t : Tree) (gap : List Lexeme) (s : State) (l : Lexeme) :
    takeGap (s.receive t gap) l = s.receive t (gap ++ [l]) := by
  obtain ⟨fs, root⟩ := s
  cases fs with
  | nil => simp [State.receive, takeGap, State.push]
  | cons f below =>
      cases f <;> simp [State.receive, takeGap, State.push, Frame.receive]

/-- A command that cannot use what comes next may as well be closed at once.  The
blanks and comments in between go from the command to the frame below. -/
theorem run_of_not_accepts {p : Pending} {rest : List Lexeme}
    (h : ∀ l ∈ ahead rest, accepts l p.slots = false) (fs : List Frame)
    (root : List Tree) :
    run table ⟨.pending p :: fs, root⟩ rest =
      run table (State.receive p.tree p.gap ⟨fs, root⟩) rest := by
  induction rest generalizing p with
  | nil =>
      have hclose : (Frame.pending p).closeBefore? none = some (p.tree, p.gap) := rfl
      simp only [run_nil, State.finish, settle_of_close hclose]
  | cons l rest ih =>
      cases hl : l.isGap with
      | true =>
          have hrest : ∀ m ∈ ahead rest, accepts m p.slots = false := by
            simpa [ahead, hl] using h
          -- The command keeps the gap now and gives it away later, or the frame
          -- below gets it at once.
          simp only [run_cons, step_of_isGap hl, takeGap_receive]
          exact ih (p := { p with gap := p.gap ++ [l] }) hrest
      | false =>
          have hreject : accepts l p.slots = false := h l (by simp [ahead, hl])
          have hclose : (Frame.pending p).closeBefore? (some l) =
              some (p.tree, p.gap) := by
            simp [Frame.closeBefore?, hreject]
          simp only [run_cons, step_of_not_isGap hl, settle_of_close hclose]

/-! ### States in which trees stand in a row -/

/-- Where the next tree of an open frame will stand, and how it is read. -/
def Frame.scope? : Frame → Option (Scope × Mode)
  | .group mode _ => some (.braces, mode)
  | .braces p _ => some (.braces, p.mode)
  | .brackets p _ => some (.brackets, p.mode)
  | .pending _ => none

/-- Where the next tree will stand, and how it is read; a command that waits for an
argument leaves this open. -/
def State.scope? (s : State) : Option (Scope × Mode) :=
  match s.frames with
  | [] => some (.top, .math)
  | f :: _ => f.scope?

/-- The finished trees of a frame, last first. -/
def Frame.done : Frame → List Tree
  | .group _ done | .braces _ done | .brackets _ done => done
  | .pending _ => []

/-- The finished trees of the innermost frame, last first. -/
def State.done (s : State) : List Tree :=
  match s.frames with
  | [] => s.root
  | f :: _ => f.done

/-- A frame with other finished trees. -/
def Frame.withDone (done : List Tree) : Frame → Frame
  | .group mode _ => .group mode done
  | .braces p _ => .braces p done
  | .brackets p _ => .brackets p done
  | .pending p => .pending p

/-- The state in which the innermost frame has other finished trees. -/
def State.withDone (done : List Tree) (s : State) : State :=
  match s.frames with
  | [] => ⟨[], done⟩
  | f :: below => ⟨f.withDone done :: below, s.root⟩

@[simp] theorem State.scope?_withDone (s : State) (done : List Tree) :
    (s.withDone done).scope? = s.scope? := by
  obtain ⟨fs, root⟩ := s
  cases fs with
  | nil => rfl
  | cons f below => cases f <;> rfl

@[simp] theorem State.withDone_withDone (s : State) (done done' : List Tree) :
    (s.withDone done).withDone done' = s.withDone done' := by
  obtain ⟨fs, root⟩ := s
  cases fs with
  | nil => rfl
  | cons f below => cases f <;> rfl

theorem State.withDone_done (s : State) : s.withDone s.done = s := by
  obtain ⟨fs, root⟩ := s
  cases fs with
  | nil => rfl
  | cons f below => cases f <;> rfl

/-- Trees stand in a row at the top, in a group and in an argument with marks. -/
theorem State.cases_of_scope? {s : State} {place : Scope × Mode}
    (h : s.scope? = some place) :
    (∃ root, s = ⟨[], root⟩ ∧ place = (.top, .math)) ∨
      (∃ mode done fs root, s = ⟨.group mode done :: fs, root⟩ ∧
        place = (.braces, mode)) ∨
      (∃ p done fs root, s = ⟨.braces p done :: fs, root⟩ ∧ place = (.braces, p.mode)) ∨
      ∃ p done fs root, s = ⟨.brackets p done :: fs, root⟩ ∧
        place = (.brackets, p.mode) := by
  obtain ⟨fs, root⟩ := s
  cases fs with
  | nil => exact .inl ⟨root, rfl, (Option.some.inj h).symm⟩
  | cons f fs =>
      have hplace : f.scope? = some place := h
      cases f with
      | group mode done =>
          exact .inr (.inl ⟨mode, done, fs, root, rfl, (Option.some.inj hplace).symm⟩)
      | braces p done =>
          exact .inr (.inr (.inl
            ⟨p, done, fs, root, rfl, (Option.some.inj hplace).symm⟩))
      | brackets p done =>
          exact .inr (.inr (.inr
            ⟨p, done, fs, root, rfl, (Option.some.inj hplace).symm⟩))
      | pending p => simp [Frame.scope?] at hplace

theorem State.done_withDone {s : State} {place : Scope × Mode}
    (h : s.scope? = some place) (done : List Tree) : (s.withDone done).done = done := by
  rcases State.cases_of_scope? h with
    ⟨_, rfl, _⟩ | ⟨_, _, _, _, rfl, _⟩ | ⟨_, _, _, _, rfl, _⟩ | ⟨_, _, _, _, rfl, _⟩ <;>
      rfl

/-- In a row of trees, a tree is received in front of those that are done. -/
theorem State.receive_eq_withDone {s : State} {place : Scope × Mode}
    (h : s.scope? = some place) (t : Tree) :
    s.receive t [] = s.withDone (t :: s.done) := by
  rcases State.cases_of_scope? h with
    ⟨_, rfl, _⟩ | ⟨_, _, _, _, rfl, _⟩ | ⟨_, _, _, _, rfl, _⟩ | ⟨_, _, _, _, rfl, _⟩ <;>
      rfl

theorem State.push_eq_receive (s : State) (t : Tree) : s.push t = s.receive t [] := by
  obtain ⟨fs, root⟩ := s
  cases fs with
  | nil => rfl
  | cons f below => rfl

/-! ### One lexeme into a row of trees -/

/-- Text is letters, digits and all other characters without a role. -/
theorem LexemeKind.eq_of_isText {kind : LexemeKind} (h : kind.isText = true) :
    kind = .letter ∨ kind = .digit ∨ kind = .other := by
  simpa [LexemeKind.isText, or_assoc] using h

theorem not_isGap_of_isText {l : Lexeme} (h : l.kind.isText = true) :
    l.isGap = false := by
  rcases LexemeKind.eq_of_isText h with h | h | h <;> simp [Lexeme.isGap, h]

/-- Only brackets close in front of a lexeme, and only in front of a closing
brace. -/
theorem settle_of_scope {s : State} {place : Scope × Mode} (h : s.scope? = some place)
    {l : Lexeme} (hl : l.kind = .closeBrace → place.1 ≠ .brackets) :
    settle (some l) s = s := by
  rcases State.cases_of_scope? h with
    ⟨root, rfl, -⟩ | ⟨mode, done, fs, root, rfl, -⟩ | ⟨p, done, fs, root, rfl, -⟩ |
      ⟨p, done, fs, root, rfl, hplace⟩
  · rfl
  · exact settle_of_stay rfl fs root
  · exact settle_of_stay rfl fs root
  · have hkind : l.kind ≠ .closeBrace := fun hkind => hl hkind (by rw [hplace])
    have hstay : (Frame.brackets p done).closeBefore? (some l) = none := by
      simp [Frame.closeBefore?, hkind]
    exact settle_of_stay hstay fs root

theorem State.mode_of_scope? {s : State} {scope : Scope} {mode : Mode}
    (h : s.scope? = some (scope, mode)) : s.mode = mode := by
  rcases State.cases_of_scope? h with
    ⟨_, rfl, hplace⟩ | ⟨_, _, _, _, rfl, hplace⟩ | ⟨_, _, _, _, rfl, hplace⟩ |
      ⟨_, _, _, _, rfl, hplace⟩ <;> exact (Prod.mk.inj hplace).2.symm

/-- A row of trees takes a lexeme by its kind alone. -/
theorem take_of_scope {s : State} {place : Scope × Mode}
    (h : s.scope? = some place) (l : Lexeme) :
    take table s l =
      match l.kind with
      | .openBrace => s.open (.group s.mode [])
      | .closeBrace => takeCloseBrace s
      | .subscript | .superscript | .controlWord =>
        s.open (.pending (pendingFor table s.mode l))
      | .controlSymbol => s.push (.plain l)
      | .letter | .digit | .other => takeText l s
      | .comment | .blank => s.push (.gap l) := by
  rcases State.cases_of_scope? h with
    ⟨_, rfl, _⟩ | ⟨_, _, _, _, rfl, _⟩ | ⟨_, _, _, _, rfl, _⟩ | ⟨_, _, _, _, rfl, _⟩ <;>
      rfl

/-- A character goes to the finished trees, unless it is the bracket that closes. -/
theorem step_text {s : State} {scope : Scope} {mode : Mode}
    (h : s.scope? = some (scope, mode)) {l : Lexeme} (hl : l.kind.isText = true)
    (hbracket : scope = .brackets → isCloseBracket l = true →
      runIsOpen mode s.done = true) :
    step table s l = s.withDone (addText mode l s.done) := by
  have hkind := LexemeKind.eq_of_isText hl
  have hsettle : settle (some l) s = s :=
    settle_of_scope h fun hclose => by simp [hclose] at hkind
  rw [step_of_not_isGap (not_isGap_of_isText hl), hsettle]
  have htake : take table s l = takeText l s := by
    rw [take_of_scope h]
    rcases hkind with hkind | hkind | hkind <;> simp only [hkind]
  rw [htake]
  rcases State.cases_of_scope? h with
    ⟨root, rfl, hplace⟩ | ⟨mode', done, fs, root, rfl, hplace⟩ |
      ⟨p, done, fs, root, rfl, hplace⟩ | ⟨p, done, fs, root, rfl, hplace⟩ <;>
    obtain ⟨rfl, rfl⟩ := Prod.mk.inj hplace
  · rfl
  · rfl
  · rfl
  · -- Only here may a character close what it stands in.
    have hstay : (isCloseBracket l && !runIsOpen p.mode done) = false := by
      cases hclose : isCloseBracket l with
      | false => rfl
      | true =>
          have hopen : runIsOpen p.mode done = true := hbracket rfl hclose
          rw [hopen]
          rfl
    simp [takeText, hstay, State.withDone, Frame.withDone, State.done, Frame.done]

theorem step_gap {s : State} {place : Scope × Mode}
    (h : s.scope? = some place) {l : Lexeme} (hl : l.isGap = true) :
    step table s l = s.withDone (.gap l :: s.done) := by
  rw [step_of_isGap hl, ← State.receive_eq_withDone h, ← State.push_eq_receive]
  rcases State.cases_of_scope? h with
    ⟨_, rfl, _⟩ | ⟨_, _, _, _, rfl, _⟩ | ⟨_, _, _, _, rfl, _⟩ | ⟨_, _, _, _, rfl, _⟩ <;>
      rfl

/-! ### Runs of characters -/

/-- No run of characters at the end of the finished trees goes on with what
follows. -/
def State.Ready (mode : Mode) (rest : List Lexeme) (s : State) : Prop :=
  ∀ l ∈ rest.head?, l.kind.isText = true →
    addText mode l s.done = .text l.text :: s.done

theorem isDigit_of_startKind {c : Char}
    (h : Lexeme.startKind c = .digit) : c.isDigit = true :=
  Lexeme.opens_of_startKind h

theorem startKind_of_isDigit {c : Char} (h : c.isDigit = true) :
    Lexeme.startKind c = .digit := by
  obtain ⟨hlow, hhigh⟩ : 48 ≤ c.toNat ∧ c.toNat ≤ 57 := Char.isDigit_iff_toNat.mp h
  have hne : ∀ d : Char, d.toNat < 48 ∨ 57 < d.toNat → c ≠ d := by
    rintro d hd rfl
    omega
  have hblank : Text.isBlank c = false := by
    simp only [Text.isBlank]
    grind
  have halpha : c.isAlpha = false := by
    have hletters : c.isAlpha = (decide ('A'.val ≤ c.val ∧ c.val ≤ 'Z'.val) ||
        (decide ('a'.val ≤ c.val) && decide (c.val ≤ 'z'.val))) := rfl
    rw [hletters]
    simp only [UInt32.le_iff_toNat_le, Char.toNat_val]
    grind
  simp [Lexeme.startKind, hne '%' (by decide), hblank, hne '{' (by decide),
    hne '}' (by decide), hne '_' (by decide), hne '^' (by decide), halpha, h]

theorem Mode.isText_of_joins {mode : Mode} {kind : LexemeKind}
    (h : mode.joins kind = true) :
    kind.isText = true := by
  cases mode with
  | math => simp_all [Mode.joins, LexemeKind.isText]
  | text => exact h

theorem isText_of_readsText {scope : Scope} {mode : Mode}
    {rest : List Lexeme} {chars : List Char} (h : readsText scope mode rest chars) :
    ∀ c ∈ chars, (Lexeme.startKind c).isText = true := by
  intro c hc
  obtain ⟨-, ⟨d, rfl, htext, -⟩ | ⟨-, hjoin, -⟩⟩ := h
  · rwa [List.mem_singleton.mp hc]
  · exact Mode.isText_of_joins (hjoin c hc)

/-- A run takes in every further character that it may hold. -/
theorem addText_of_joins {mode : Mode} {c d : Char} {cs : List Char} {done : List Tree}
    (hc : mode.joins (Lexeme.startKind c) = true)
    (hd : mode.joins (Lexeme.startKind d) = true) :
    addText mode (Lexeme.start d) (.text (c :: cs) :: done) =
      .text (c :: cs ++ [d]) :: done := by
  cases mode with
  | text => simp [addText, Lexeme.start]
  | math =>
      have hdigit : c.isDigit = true :=
        isDigit_of_startKind (by simpa [Mode.joins] using hc)
      have hkind : Lexeme.startKind d = .digit := by simpa [Mode.joins] using hd
      simp [addText, Lexeme.start, hdigit, hkind]

/-- After a tree of the grammar the reader is ready for what follows it. -/
theorem State.ready_withDone {s : State} {scope : Scope} {mode : Mode}
    (h : s.scope? = some (scope, mode)) {t : Tree} {rest : List Lexeme}
    (ht : t.Reads table scope mode rest) (done : List Tree) :
    (s.withDone (t :: done)).Ready mode rest := by
  intro l hl hkind
  rw [State.done_withDone h]
  cases t with
  | text chars =>
      simp only [Tree.Reads, readsText] at ht
      obtain ⟨-, ⟨c, rfl, htext, hjoin⟩ | ⟨hne, hjoin, hend⟩⟩ := ht
      · cases mode with
        | text => simp_all [Mode.joins]
        | math =>
            have hdigit : c.isDigit = false := by
              by_contra hdigit
              have := startKind_of_isDigit (by simpa using hdigit)
              simp [Mode.joins, this] at hjoin
            simp [addText, hdigit]
      · have hstop := hend l hl
        cases mode with
        | text => simp_all [Mode.joins]
        | math =>
            have hdigit : l.kind ≠ .digit := by simpa [Mode.joins] using hstop
            simp [addText, hdigit]
  | _ => rfl

theorem isCloseBracket_start {c : Char} (h : isCloseBracket (Lexeme.start c) = true) :
    c = ']' ∧ Lexeme.startKind c = .other := by
  simp only [isCloseBracket, Bool.and_eq_true, decide_eq_true_eq] at h
  exact ⟨(List.cons.inj h.2).1, h.1⟩

/-- Characters that join extend the text at hand, one by one. -/
theorem run_run_tail {s : State} {scope : Scope} {mode : Mode} {c : Char}
    (h : s.scope? = some (scope, mode)) (hc : mode.joins (Lexeme.startKind c) = true)
    (ds : List Char) (hds : ∀ d ∈ ds, mode.joins (Lexeme.startKind d) = true)
    (cs : List Char) (done : List Tree) (rest : List Lexeme) :
    run table (s.withDone (.text (c :: cs) :: done)) (charLexemes ds ++ rest) =
      run table (s.withDone (.text (c :: cs ++ ds) :: done)) rest := by
  induction ds generalizing cs with
  | nil => simp
  | cons d ds ih =>
      have hd : mode.joins (Lexeme.startKind d) = true := hds d (by simp)
      have hscope : (s.withDone (.text (c :: cs) :: done)).scope? =
          some (scope, mode) := by
        rw [State.scope?_withDone, h]
      -- A closing bracket only goes on a run of text, and such a run swallows it.
      have hopen : isCloseBracket (Lexeme.start d) = true →
          runIsOpen mode (s.withDone (.text (c :: cs) :: done)).done = true := by
        intro hclose
        obtain ⟨-, hkind⟩ := isCloseBracket_start hclose
        rw [State.done_withDone h]
        cases mode with
        | math => simp [Mode.joins, hkind] at hd
        | text => rfl
      rw [charLexemes_cons, List.cons_append, run_cons,
        step_text hscope (Mode.isText_of_joins hd) (fun _ => hopen),
        State.done_withDone h, addText_of_joins hc hd,
        State.withDone_withDone, List.cons_append,
        ih (fun e he => hds e (List.mem_cons_of_mem d he)) (cs ++ [d])]
      simp

/-- The characters of a tree of text are read as this tree. -/
theorem run_text {s : State} {scope : Scope} {mode : Mode}
    (h : s.scope? = some (scope, mode)) {chars : List Char} {rest : List Lexeme}
    (ht : readsText scope mode rest chars)
    (hready : s.Ready mode (charLexemes chars ++ rest)) :
    run table s (charLexemes chars ++ rest) =
      run table (s.withDone (.text chars :: s.done)) rest := by
  obtain ⟨hbracket, htext⟩ := ht
  cases chars with
  | nil => simp at htext
  | cons c cs =>
      have hkind : (Lexeme.startKind c).isText = true := by
        rcases htext with ⟨d, hd, hkind, -⟩ | ⟨-, hjoin, -⟩
        · rw [(List.cons.inj hd).1]
          exact hkind
        · exact Mode.isText_of_joins (hjoin c (by simp))
      have hfirst : step table s (Lexeme.start c) =
          s.withDone (.text [c] :: s.done) := by
        rw [step_text h hkind]
        · rw [hready (Lexeme.start c) rfl hkind]
          rfl
        · intro hscope hclose
          exact absurd (congrArg some (isCloseBracket_start hclose).1) (hbracket hscope)
      rw [charLexemes_cons, List.cons_append, run_cons, hfirst]
      rcases htext with ⟨d, hd, -, -⟩ | ⟨-, hjoin, -⟩
      · rw [(List.cons.inj hd).2]
        rfl
      · exact run_run_tail h (hjoin c (by simp)) cs
          (fun d hd => hjoin d (List.mem_cons_of_mem c hd)) [] s.done rest

/-- After trees of the grammar the reader is ready for what follows them. -/
theorem State.ready_withDone_reverse {scope : Scope} {mode : Mode} {rest : List Lexeme}
    (ts : List Tree) {s : State} (h : s.scope? = some (scope, mode))
    (hready : s.Ready mode (treesLexemes ts ++ rest))
    (hts : treesRead table scope mode rest ts) :
    (s.withDone (ts.reverse ++ s.done)).Ready mode rest := by
  induction ts generalizing s with
  | nil => simpa [State.withDone_done] using hready
  | cons t ts ih =>
      simp only [treesRead] at hts
      have hnext : (s.withDone (t :: s.done)).Ready mode (treesLexemes ts ++ rest) :=
        State.ready_withDone h hts.1 s.done
      have hlast := ih (by rw [State.scope?_withDone, h]) hnext hts.2
      rw [State.done_withDone h, State.withDone_withDone] at hlast
      simpa using hlast

/-! ### Opening and closing -/

/-- A command starts without arguments, with the slots and the mode of its head. -/
theorem pendingFor_eq (mode : Mode) (l : Lexeme) :
    pendingFor table mode l =
      { head := l, mode := argumentMode table mode l, args := [],
        slots := argumentSlots table l, gap := [] } := by
  by_cases h : l.kind = .controlWord
  · simp [pendingFor, argumentMode, argumentSlots, h]
  · simp [pendingFor, argumentMode, argumentSlots, h]

theorem step_head {s : State} {scope : Scope} {mode : Mode}
    (h : s.scope? = some (scope, mode)) {l : Lexeme}
    (hl : l.kind = .controlWord ∨ l.kind = .subscript ∨ l.kind = .superscript) :
    step table s l = ⟨.pending (pendingFor table mode l) :: s.frames, s.root⟩ := by
  have hgap : l.isGap = false := by
    rcases hl with hl | hl | hl <;> simp [Lexeme.isGap, hl]
  have hsettle : settle (some l) s = s :=
    settle_of_scope h fun hclose => by simp [hclose] at hl
  rw [step_of_not_isGap hgap, hsettle, take_of_scope h, State.mode_of_scope? h]
  rcases hl with hl | hl | hl <;> simp [hl, State.open]

theorem step_controlSymbol {s : State} {place : Scope × Mode}
    (h : s.scope? = some place) {l : Lexeme} (hl : l.kind = .controlSymbol) :
    step table s l = s.withDone (.plain l :: s.done) := by
  have hgap : l.isGap = false := by simp [Lexeme.isGap, hl]
  have hsettle : settle (some l) s = s :=
    settle_of_scope h fun hclose => by simp [hclose] at hl
  rw [step_of_not_isGap hgap, hsettle, take_of_scope h, hl,
    ← State.receive_eq_withDone h, ← State.push_eq_receive]

theorem step_openBrace {s : State} {scope : Scope} {mode : Mode}
    (h : s.scope? = some (scope, mode)) :
    step table s (Lexeme.start '{') = ⟨.group mode [] :: s.frames, s.root⟩ := by
  have hkind : (Lexeme.start '{').kind = .openBrace := rfl
  have hsettle : settle (some (Lexeme.start '{')) s = s :=
    settle_of_scope h fun hclose => by simp [hkind] at hclose
  rw [step_of_not_isGap rfl, hsettle, take_of_scope h, State.mode_of_scope? h, hkind]
  rfl

/-- A bracket closes an optional argument and fills its slot. -/
theorem step_closeBracket {p : Pending} {done : List Tree}
    {fs : List Frame} {root : List Tree} {rest : List Lexeme}
    (hready : State.Ready p.mode (Lexeme.start ']' :: rest)
      ⟨.brackets p done :: fs, root⟩) :
    step table ⟨.brackets p done :: fs, root⟩ (Lexeme.start ']') =
      ⟨.pending (p.fill (.brackets true) done.reverse) :: fs, root⟩ := by
  have hopen : runIsOpen p.mode done = false := by
    cases done with
    | nil => rfl
    | cons t done =>
        cases t with
        | text chars =>
            by_contra hmode
            have hmode : p.mode = .text := by simpa [runIsOpen] using hmode
            -- The run would swallow the bracket, but the reader is ready for it.
            have hadd : addText p.mode (Lexeme.start ']') (.text chars :: done) =
                .text [']'] :: .text chars :: done := hready (Lexeme.start ']') rfl rfl
            simp [addText, hmode] at hadd
        | _ => rfl
  have hsettle : settle (some (Lexeme.start ']')) ⟨.brackets p done :: fs, root⟩ =
      ⟨.brackets p done :: fs, root⟩ := settle_of_stay rfl fs root
  rw [step_of_not_isGap rfl, hsettle]
  have htake : take table ⟨.brackets p done :: fs, root⟩ (Lexeme.start ']') =
      takeText (Lexeme.start ']') ⟨.brackets p done :: fs, root⟩ := rfl
  have hclose : isCloseBracket (Lexeme.start ']') = true := rfl
  rw [htake]
  simp [takeText, hclose, hopen]

/-! ### Arguments -/

/-- A waiting command while its next argument is read: `before` stands in front of
the argument, and `left` are the slots after it. -/
def Pending.entered (p : Pending) (before : List Lexeme) (left : List Slot) : Pending :=
  { p with slots := left, gap := before }

/-- The tree of a command whose last argument has just been filled. -/
theorem Pending.tree_fill_entered (p : Pending)
    (before : List Lexeme) (left : List Slot) (enclosure : Enclosure)
    (body : List Tree) :
    ((p.entered before left).fill enclosure body).tree =
      .command p.head (p.args.reverse ++ [.mk before enclosure body])
        (left.any (· ≠ .optional)) := by
  simp [Pending.tree, Pending.fill, Pending.entered]

/-- Layout in front of an argument is kept until the argument is there. -/
theorem run_gaps {p : Pending} (hgap : p.gap = []) (fs : List Frame) (root : List Tree)
    (before rest : List Lexeme) (hbefore : ∀ l ∈ before, l.isGap = true) :
    run table ⟨.pending p :: fs, root⟩ (before ++ rest) =
      run table ⟨.pending (p.entered before p.slots) :: fs, root⟩ rest := by
  have hrun : ∀ q : Pending, run table ⟨.pending q :: fs, root⟩ (before ++ rest) =
      run table ⟨.pending { q with gap := q.gap ++ before } :: fs, root⟩ rest := by
    induction before with
    | nil => simp
    | cons l before ih =>
        intro q
        rw [List.cons_append, run_cons, step_of_isGap (hbefore l (by simp)), takeGap,
          ih fun m hm => hbefore m (List.mem_cons_of_mem l hm)]
        simp
  rw [hrun p, hgap]
  rfl

/-- A lexeme is accepted if it suits the first slot that it does not skip. -/
theorem accepts_of_skipOptional {l : Lexeme} {slots left : List Slot} {slot : Slot}
    (h : skipOptional l slots = slot :: left) :
    accepts l slots =
      match slot with
      | .optional => true
      | .delimiter => isDelimiter l
      | .mandatory => startsArgument l := by
  simp only [accepts, h]
  cases slot <;> rfl

section Entering

variable {p : Pending} {before : List Lexeme} {left : List Slot}

/-- A waiting command gets past blanks and comments to a lexeme that it can use. -/
theorem run_takeArgument (hgap : p.gap = [])
    (hbefore : ∀ l ∈ before, l.isGap = true) {l : Lexeme} (hl : l.isGap = false)
    (h : accepts l p.slots = true) (fs : List Frame) (root : List Tree)
    (rest : List Lexeme) :
    run table ⟨.pending p :: fs, root⟩ (before ++ l :: rest) =
      run table (takeArgument table (p.entered before p.slots) fs root l) rest := by
  have hstay : (Frame.pending (p.entered before p.slots)).closeBefore? (some l) =
      none := by
    simp [Frame.closeBefore?, Pending.entered, h]
  rw [run_gaps hgap fs root before _ hbefore, run_cons, step_of_not_isGap hl,
    settle_of_stay hstay]
  rfl

theorem run_openBracket (hgap : p.gap = []) (hbefore : ∀ l ∈ before, l.isGap = true)
    (h : p.slots = .optional :: left) (fs : List Frame) (root : List Tree)
    (rest : List Lexeme) :
    run table ⟨.pending p :: fs, root⟩ (before ++ Lexeme.start '[' :: rest) =
      run table ⟨.brackets (p.entered before left) [] :: fs, root⟩ rest := by
  have hskip : skipOptional (Lexeme.start '[') p.slots = .optional :: left := by
    rw [h]
    rfl
  rw [run_takeArgument hgap hbefore rfl (accepts_of_skipOptional hskip)]
  simp [takeArgument, Pending.entered, hskip]

theorem run_openBrace (hgap : p.gap = []) (hbefore : ∀ l ∈ before, l.isGap = true)
    (h : skipOptional (Lexeme.start '{') p.slots = .mandatory :: left) (fs : List Frame)
    (root : List Tree) (rest : List Lexeme) :
    run table ⟨.pending p :: fs, root⟩ (before ++ Lexeme.start '{' :: rest) =
      run table ⟨.braces (p.entered before left) [] :: fs, root⟩ rest := by
  have hkind : (Lexeme.start '{').kind = .openBrace := rfl
  rw [run_takeArgument hgap hbefore rfl (accepts_of_skipOptional h)]
  simp [takeArgument, Pending.entered, h, hkind]

theorem run_delimiter (hgap : p.gap = [])
    (hbefore : ∀ l ∈ before, l.isGap = true) {l : Lexeme} (hl : isDelimiter l = true)
    (h : skipOptional l p.slots = .delimiter :: left) (fs : List Frame)
    (root : List Tree) (rest : List Lexeme) :
    run table ⟨.pending p :: fs, root⟩ (before ++ l :: rest) =
      run table ⟨.pending ((p.entered before left).fill .bare [atom l]) :: fs, root⟩
        rest := by
  have hlgap : l.isGap = false := by
    cases hkind : l.kind <;> simp_all [isDelimiter, Lexeme.isGap]
  rw [run_takeArgument hgap hbefore hlgap ((accepts_of_skipOptional h).trans hl)]
  simp [takeArgument, Pending.entered, h]

/-- A character or a control symbol is an argument by itself. -/
theorem run_atom (hgap : p.gap = [])
    (hbefore : ∀ l ∈ before, l.isGap = true) {l : Lexeme}
    (hl : l.kind.isText = true ∨ l.kind = .controlSymbol)
    (h : skipOptional l p.slots = .mandatory :: left)
    (fs : List Frame) (root : List Tree) (rest : List Lexeme) :
    run table ⟨.pending p :: fs, root⟩ (before ++ l :: rest) =
      run table ⟨.pending ((p.entered before left).fill .bare [atom l]) :: fs, root⟩
        rest := by
  have hlgap : l.isGap = false := by
    cases hkind : l.kind <;> simp_all [LexemeKind.isText, Lexeme.isGap]
  have hstarts : startsArgument l = true := by
    cases hkind : l.kind <;> simp_all [LexemeKind.isText, startsArgument]
  have hplain : l.kind ≠ .openBrace ∧ l.kind ≠ .controlWord := by
    constructor <;> rintro hkind <;> simp [hkind, LexemeKind.isText] at hl
  rw [run_takeArgument hgap hbefore hlgap ((accepts_of_skipOptional h).trans hstarts)]
  simp [takeArgument, Pending.entered, h, hplain]

/-- A word opens a command that is to become an argument. -/
theorem run_controlWord (hgap : p.gap = [])
    (hbefore : ∀ l ∈ before, l.isGap = true) {l : Lexeme} (hl : l.kind = .controlWord)
    (h : skipOptional l p.slots = .mandatory :: left) (fs : List Frame)
    (root : List Tree) (rest : List Lexeme) :
    run table ⟨.pending p :: fs, root⟩ (before ++ l :: rest) =
      run table ⟨.pending (pendingFor table p.mode l) ::
        .pending (p.entered before left) :: fs,
        root⟩ rest := by
  have hlgap : l.isGap = false := by simp [Lexeme.isGap, hl]
  have hstarts : startsArgument l = true := by simp [startsArgument, hl]
  rw [run_takeArgument hgap hbefore hlgap ((accepts_of_skipOptional h).trans hstarts)]
  simp [takeArgument, Pending.entered, h, hl]

end Entering

/-- A closing brace ends an argument and fills its slot. -/
theorem step_closeBrace_argument (p : Pending) (done : List Tree) (fs : List Frame)
    (root : List Tree) :
    step table ⟨.braces p done :: fs, root⟩ (Lexeme.start '}') =
      ⟨.pending (p.fill (.braces true) done.reverse) :: fs, root⟩ := by
  have hsettle : settle (some (Lexeme.start '}')) ⟨.braces p done :: fs, root⟩ =
      ⟨.braces p done :: fs, root⟩ := settle_of_stay rfl fs root
  rw [step_of_not_isGap rfl, hsettle]
  rfl

/-- A closing brace ends a group, which is then received. -/
theorem step_closeBrace_group (mode : Mode) (done : List Tree) (s : State) :
    step table ⟨.group mode done :: s.frames, s.root⟩ (Lexeme.start '}') =
      s.receive (.group done.reverse true) [] := by
  have hsettle : settle (some (Lexeme.start '}'))
      ⟨.group mode done :: s.frames, s.root⟩ =
      ⟨.group mode done :: s.frames, s.root⟩ := settle_of_stay rfl s.frames s.root
  rw [step_of_not_isGap rfl, hsettle, ← State.push_eq_receive]
  rfl

theorem State.ready_nil {s : State} (h : s.done = []) (mode : Mode)
    (rest : List Lexeme) :
    s.Ready mode rest := by
  intro l _ _
  rw [h]
  rfl

/-! ### Trees -/

theorem lexemes_atom {l : Lexeme} (h : l ∈ (atom l).lexemes.head?) :
    (atom l).lexemes = [l] := by
  by_cases hkind : l.kind = .controlWord ∨ l.kind = .controlSymbol
  · rw [atom, if_pos hkind]
    rfl
  · rw [atom, if_neg hkind, Tree.lexemes] at h ⊢
    obtain ⟨kind, text⟩ := l
    cases text with
    | nil => simp at h
    | cons c cs =>
        have hstart : Lexeme.start c = ⟨kind, c :: cs⟩ := by simpa using h
        obtain rfl : [] = cs := (List.cons.inj (congrArg Lexeme.text hstart)).2
        simp [hstart]

theorem startKind_ne_controlWord (c : Char) : Lexeme.startKind c ≠ .controlWord :=
  Lexeme.opens_of_startKind

/-- Only a command starts with a control word. -/
theorem Tree.Reads.eq_command {t : Tree} {scope : Scope} {mode : Mode}
    {rest : List Lexeme} (ht : t.Reads table scope mode rest) {l : Lexeme}
    (hl : l ∈ t.lexemes.head?) (hword : l.kind = .controlWord) :
    ∃ args missing, t = .command l args missing := by
  cases t with
  | text chars =>
      cases chars with
      | nil => simp at hl
      | cons c cs =>
          obtain rfl : Lexeme.start c = l := by simpa using hl
          exact absurd hword (startKind_ne_controlWord c)
  | gap lexeme =>
      obtain rfl : lexeme = l := by simpa using hl
      simp [Tree.Reads, Lexeme.isGap, hword] at ht
  | stray =>
      obtain rfl : Lexeme.start '}' = l := by simpa using hl
      exact absurd hword (startKind_ne_controlWord '}')
  | group body closed =>
      obtain rfl : Lexeme.start '{' = l := by simpa using hl
      exact absurd hword (startKind_ne_controlWord '{')
  | command head args missing =>
      obtain rfl : head = l := by simpa using hl
      exact ⟨args, missing, rfl⟩

mutual

/-- The lexemes of a tree of the grammar are read as this tree. -/
theorem Tree.run_lexemes : (t : Tree) → (s : State) → (scope : Scope) → (mode : Mode) →
    (rest : List Lexeme) → s.scope? = some (scope, mode) →
    s.Ready mode (t.lexemes ++ rest) → t.Reads table scope mode rest →
      run table s (t.lexemes ++ rest) = run table (s.withDone (t :: s.done)) rest
  | .text chars, s, scope, mode, rest, h, hready, ht => by
      simp only [Tree.Reads] at ht
      exact run_text h ht hready
  | .gap lexeme, s, scope, mode, rest, h, _, ht => by
      simp only [Tree.Reads] at ht
      rw [Tree.lexemes, List.cons_append, List.nil_append, run_cons, step_gap h ht]
  | .stray, s, scope, mode, rest, h, _, ht => by
      simp only [Tree.Reads] at ht
      subst ht
      obtain ⟨fs, root⟩ := s
      cases fs with
      | nil => rfl
      | cons f below => cases f <;> simp [State.scope?, Frame.scope?] at h
  | .group body closed, s, scope, mode, rest, h, _, ht => by
      simp only [Tree.Reads] at ht
      obtain ⟨hbody, hclosed⟩ := ht
      -- The body fills a new frame, which the closing brace or the end of the source
      -- hands to the frame below.
      have hrun := run_treesLexemes body
        ⟨.group mode [] :: s.frames, s.root⟩ .braces mode
        _ rfl (State.ready_nil rfl mode _) hbody
      rw [Tree.lexemes, List.cons_append, run_cons, step_openBrace h,
        List.append_assoc, hrun, ← State.receive_eq_withDone h]
      simp only [State.withDone, Frame.withDone, State.done,
        Frame.done, List.append_nil]
      cases closed with
      | true =>
          simp only [Enclosure.closing, charLexemes_cons, charLexemes_nil, if_true,
            List.cons_append, List.nil_append]
          rw [run_cons, step_closeBrace_group, List.reverse_reverse]
      | false =>
          obtain rfl := hclosed rfl
          exact run_of_close (by simp [Enclosure.closing])
            (by simp [Frame.closeBefore?, Enclosure.closing]) s.frames s.root
  | .command head args missing, s, scope, mode, rest, h, _, ht => by
      simp only [Tree.Reads] at ht
      rw [Tree.lexemes, List.cons_append, run_cons]
      rcases ht with ⟨hkind, rfl, rfl⟩ | ⟨hkind, hargs⟩
      · rw [step_controlSymbol h hkind]
        rfl
      · have hrun := run_argsLexemes args (pendingFor table mode head)
          s.frames s.root rest missing
          (by rw [pendingFor_eq]) (by rw [pendingFor_eq]; exact hargs)
        rw [step_head h hkind, hrun, pendingFor_eq, ← State.receive_eq_withDone h]
        rfl

/-- Trees that the grammar allows are read one after the other. -/
theorem run_treesLexemes :
    (ts : List Tree) → (s : State) → (scope : Scope) → (mode : Mode) →
    (rest : List Lexeme) → s.scope? = some (scope, mode) →
      s.Ready mode (treesLexemes ts ++ rest) → treesRead table scope mode rest ts →
      run table s (treesLexemes ts ++ rest) =
        run table (s.withDone (ts.reverse ++ s.done)) rest
  | [], s, scope, mode, rest, _, _, _ => by simp [State.withDone_done]
  | t :: ts, s, scope, mode, rest, h, hready, hts => by
      simp only [treesRead] at hts
      rw [treesLexemes, List.append_assoc] at hready ⊢
      have hnext : (s.withDone (t :: s.done)).scope? = some (scope, mode) := by
        rw [State.scope?_withDone, h]
      rw [t.run_lexemes s scope mode _ h hready hts.1,
        run_treesLexemes ts _ scope mode rest hnext
          (State.ready_withDone h hts.1 s.done) hts.2, State.done_withDone h,
          State.withDone_withDone]
      simp

/-- Arguments that the grammar allows are read one after the other, and then the
command is complete. -/
theorem run_argsLexemes : (args : List Arg) → (p : Pending) → (fs : List Frame) →
    (root : List Tree) → (rest : List Lexeme) → (missing : Bool) → p.gap = [] →
    argsRead table p.mode p.slots rest missing args →
      run table ⟨.pending p :: fs, root⟩ (argsLexemes args ++ rest) =
        run table
          (State.receive (.command p.head (p.args.reverse ++ args) missing) []
            ⟨fs, root⟩) rest
  | [], p, fs, root, rest, missing, hgap, h => by
      simp only [argsRead] at h
      rw [argsLexemes, List.nil_append, run_of_not_accepts h.1, hgap,
        h.2, List.append_nil]
      rfl
  | .mk before (.brackets closed) body :: args, p, fs, root, rest,
      missing, hgap, h => by
      simp only [argsRead] at h
      obtain ⟨hbefore, hbody, hclosed, left, hslots, hargs⟩ := h
      have hrun := run_treesLexemes body
        ⟨.brackets (p.entered before left) [] :: fs, root⟩
        .brackets p.mode _ rfl (State.ready_nil rfl p.mode _) hbody
      have hready := State.ready_withDone_reverse body
        (s := ⟨.brackets (p.entered before left) [] :: fs, root⟩) rfl
        (State.ready_nil rfl p.mode _) hbody
      simp only [argsLexemes, Enclosure.opening, charLexemes_cons, charLexemes_nil,
        List.cons_append, List.nil_append, List.append_assoc]
      rw [run_openBracket hgap hbefore hslots, hrun]
      simp only [State.withDone, Frame.withDone, State.done,
        Frame.done, List.append_nil]
        at hready ⊢
      cases closed with
      | true =>
          simp only [Enclosure.closing, charLexemes_cons, charLexemes_nil, if_true,
            List.cons_append, List.nil_append] at hready ⊢
          rw [run_cons, step_closeBracket hready, List.reverse_reverse,
            run_argsLexemes args _ fs root rest missing rfl hargs]
          simp [Pending.fill, Pending.entered]
      | false =>
          -- The frame closes in front of what stops it, and so does the command,
          -- which has nothing left.
          obtain ⟨rfl, hend⟩ := hclosed rfl
          simp only [argsRead] at hargs
          have hclose : Frame.closeBefore? rest.head?
              (.brackets (p.entered before left) body.reverse) =
              some (((p.entered before left).fill (.brackets false) body).tree,
              []) := by
            have hall : rest.head?.all (·.kind = .closeBrace) = true := by
              cases hhead : rest.head? with
              | none => rfl
              | some l => simpa using hend l hhead
            simp [Frame.closeBefore?, hall]
          simp only [Enclosure.closing, charLexemes_nil, List.nil_append, argsLexemes,
            Bool.false_eq_true, if_false]
          rw [run_of_close _ hclose, Pending.tree_fill_entered, hargs.2]
          intro l hl
          simp [Lexeme.isGap, hend l hl]
  | .mk before (.braces closed) body :: args, p, fs, root, rest, missing, hgap, h => by
      simp only [argsRead] at h
      obtain ⟨hbefore, hbody, hclosed, left, hslots, hargs⟩ := h
      have hrun := run_treesLexemes body
        ⟨.braces (p.entered before left) [] :: fs, root⟩
        .braces p.mode _ rfl (State.ready_nil rfl p.mode _) hbody
      simp only [argsLexemes, Enclosure.opening, charLexemes_cons, charLexemes_nil,
        List.cons_append, List.nil_append, List.append_assoc]
      rw [run_openBrace hgap hbefore hslots, hrun]
      simp only [State.withDone, Frame.withDone, State.done, Frame.done, List.append_nil]
      cases closed with
      | true =>
          simp only [Enclosure.closing, charLexemes_cons, charLexemes_nil, if_true,
            List.cons_append, List.nil_append]
          rw [run_cons, step_closeBrace_argument, List.reverse_reverse,
            run_argsLexemes args _ fs root rest missing rfl hargs]
          simp [Pending.fill, Pending.entered]
      | false =>
          obtain ⟨rfl, rfl⟩ := hclosed rfl
          simp only [argsRead] at hargs
          have hclose : Frame.closeBefore? ([] : List Lexeme).head?
              (.braces (p.entered before left) body.reverse) =
              some (((p.entered before left).fill (.braces false) body).tree, []) := by
            simp [Frame.closeBefore?]
          simp only [Enclosure.closing, charLexemes_nil, List.nil_append, argsLexemes,
            Bool.false_eq_true, if_false]
          rw [run_of_close (by simp) hclose, Pending.tree_fill_entered, hargs.2]
  | .mk before .bare body :: args, p, fs, root, rest, missing, hgap, h => by
      simp only [argsRead] at h
      obtain ⟨hbefore, left, hbody, hargs⟩ := h
      simp only [argsLexemes, Enclosure.opening, Enclosure.closing, charLexemes_nil,
        List.nil_append, List.append_assoc]
      rw [run_bare body p before fs root _ left hgap hbefore hbody,
        run_argsLexemes args _ fs root rest missing rfl hargs]
      simp [Pending.fill, Pending.entered]

/-- An argument without braces that the grammar allows is read. -/
theorem run_bare : (body : List Tree) → (p : Pending) → (before : List Lexeme) →
    (fs : List Frame) → (root : List Tree) → (rest : List Lexeme) → (left : List Slot) →
    p.gap = [] → (∀ l ∈ before, l.isGap = true) →
    bareReads table p.mode p.slots left rest body →
      run table ⟨.pending p :: fs, root⟩ (before ++ (treesLexemes body ++ rest)) =
        run table ⟨.pending ((p.entered before left).fill .bare body) :: fs, root⟩ rest
  | [], p, before, fs, root, rest, left, _, _, h => by simp only [bareReads] at h
  | [t], p, before, fs, root, rest, left, hgap, hbefore, h => by
      simp only [bareReads] at h
      obtain ⟨l, hl, ⟨hslots, hdelimiter, rfl⟩
          | ⟨hslots, ⟨hword, ht⟩ | ⟨hkind, rfl⟩⟩⟩ := h
      · rw [treesLexemes, treesLexemes, List.append_nil, lexemes_atom hl]
        exact run_delimiter hgap hbefore hdelimiter hslots fs root rest
      · -- The inner command waits on top of the outer one and is handed to it when it
        -- closes.
        obtain ⟨args, missing, rfl⟩ := ht.eq_command hl hword
        simp only [Tree.Reads] at ht
        rcases ht with ⟨hkind, -⟩ | ⟨-, hargs⟩
        · simp [hword] at hkind
        · have hrun := run_argsLexemes args (pendingFor table p.mode l)
            (.pending (p.entered before left) :: fs) root rest missing
            (by rw [pendingFor_eq]) (by rw [pendingFor_eq]; exact hargs)
          simp only [treesLexemes, Tree.lexemes, List.append_nil, List.cons_append]
          rw [run_controlWord hgap hbefore hword hslots, hrun, pendingFor_eq]
          rfl
      · rw [treesLexemes, treesLexemes, List.append_nil, lexemes_atom hl]
        exact run_atom hgap hbefore hkind hslots fs root rest
  | _ :: _ :: _, p, before, fs, root, rest, left, _, _, h => by
      simp only [bareReads] at h

end

/-- **The reader follows the grammar**: it makes of the lexemes of a reading this
reading. -/
theorem readTrees_treesLexemes {ts : List Tree} (h : treesRead table .top .math [] ts) :
    readTrees table (treesLexemes ts) = ts := by
  have hrun := run_treesLexemes ts State.initial .top .math [] rfl
    (State.ready_nil rfl .math _) h
  rw [List.append_nil] at hrun
  change run table State.initial (treesLexemes ts) = ts
  rw [hrun]
  simp [run_nil, State.finish, State.initial, State.withDone, State.done, settle]

end Formulary.Markup
