import Formulary.Proofs.Places
import Formulary.Proofs.Totality

/-!
# Matching braces

Braces match by a stack alone, whatever commands stand between them: an opening brace
goes on the stack and a closing brace takes the last one off it.  Reading agrees with
this matching.  What it reports as a group that is not terminated is what is left on
the stack, and what it reports as unmatched is a closing brace that finds the stack
empty.

* `matchBraces` matches the braces of tokens.
* `treesMatch` compares it with the warnings of trees, by induction over the trees.
-/

namespace Formulary.Markup

/-! ### The matching -/

/-- What matching has found so far: the pairs, the closing braces that close nothing,
and the opening braces that are still open, innermost first. -/
structure BraceMatch where
  pairs : List Span
  strays : List Nat
  opened : List Nat
  deriving DecidableEq, Repr

namespace BraceMatch

/-- Takes one token. -/
def step (m : BraceMatch) (t : Token) : BraceMatch :=
  match t.lexeme.kind, m.opened with
  | .openBrace, _ => { m with opened := t.start :: m.opened }
  | .closeBrace, [] => { m with strays := m.strays ++ [t.start] }
  | .closeBrace, p :: below =>
      { m with pairs := m.pairs ++ [⟨p, t.stop⟩], opened := below }
  | _, _ => m

/-- An offset lies between the braces of a pair, or after a brace that is not
closed. -/
def Encloses (m : BraceMatch) (offset : Nat) : Prop :=
  (∃ p ∈ m.pairs, p.start ≤ offset ∧ offset < p.stop) ∨ ∃ p ∈ m.opened, p ≤ offset

end BraceMatch

/-- Matches the braces of tokens. -/
def matchBraces (tokens : List Token) : BraceMatch :=
  tokens.foldl BraceMatch.step ⟨[], [], []⟩

/-- A lexeme is no brace. -/
def Lexeme.Plain (l : Lexeme) : Prop :=
  l.kind ≠ .openBrace ∧ l.kind ≠ .closeBrace

theorem BraceMatch.step_of_plain {t : Token} (h : t.lexeme.Plain) (m : BraceMatch) :
    m.step t = m := by
  obtain ⟨hopen, hclose⟩ := h
  unfold BraceMatch.step
  split <;> simp_all

/-- A stretch without braces leaves the matching as it is. -/
theorem BraceMatch.foldl_of_plain {ls : List Lexeme}
    (h : ∀ l ∈ ls, l.Plain) (start : Nat) (m : BraceMatch) :
    (placeFrom start ls).foldl BraceMatch.step m = m := by
  induction ls generalizing start with
  | nil => rfl
  | cons l ls ih =>
      rw [placeFrom, List.foldl_cons, step_of_plain (h l (by simp)),
        ih (fun l hl => h l (by simp [hl]))]

/-! ### What is reported -/

/-- The offsets at which a complaint is made. -/
def reported (complaint : Complaint) (warnings : List Warning) : List Nat :=
  (warnings.filter (·.complaint = complaint)).map Warning.position

@[simp] theorem reported_nil (complaint : Complaint) : reported complaint [] = [] := rfl

/-- Complaints are reported in the order of the warnings. -/
@[simp] theorem reported_append (complaint : Complaint) (ws vs : List Warning) :
    reported complaint (ws ++ vs) = reported complaint ws ++ reported complaint vs := by
  simp [reported]

theorem exists_of_mem_reported {complaint : Complaint} {ws : List Warning} {p : Nat}
    (h : p ∈ reported complaint ws) : ∃ w ∈ ws, w.position = p := by
  obtain ⟨w, hw, rfl⟩ := List.mem_map.mp h
  exact ⟨w, List.mem_of_mem_filter hw, rfl⟩

/-- Matching takes lexemes that start at an offset and that `rest` follows, and finds
the braces that the warnings are about.  Only the end of the source leaves braces
open. -/
structure MatchesBraces (rest : List Lexeme) (m : BraceMatch)
    (start : Nat) (ls : List Lexeme) (warnings : List Warning) : Prop where
  closed : rest ≠ [] → reported .unterminatedGroup warnings = []
  matched : ∃ pairs : List Span,
    (∀ p ∈ pairs, start ≤ p.start ∧ p.stop ≤ start + (lexemesText ls).length) ∧
      (placeFrom start ls).foldl BraceMatch.step m =
        ⟨m.pairs ++ pairs, m.strays ++ reported .unmatchedBrace warnings,
          reported .unterminatedGroup warnings ++ m.opened⟩

namespace MatchesBraces

variable {rest ls ms : List Lexeme} {m : BraceMatch} {start : Nat}
  {ws vs : List Warning}

/-- A stretch without braces and without warnings matches. -/
theorem of_plain (h : ∀ l ∈ ls, l.Plain) : MatchesBraces rest m start ls [] where
  closed _ := rfl
  matched := ⟨[], by simp, by rw [BraceMatch.foldl_of_plain h]; simp⟩

theorem plain_append (hls : ∀ l ∈ ls, l.Plain)
    (h : MatchesBraces rest m (start + (lexemesText ls).length) ms ws) :
    MatchesBraces rest m start (ls ++ ms) ws := by
  obtain ⟨hclosed, pairs, hwithin, hfold⟩ := h
  refine ⟨hclosed, pairs, fun p hp => ?_, ?_⟩
  · have := hwithin p hp
    rw [lexemesText_append, List.length_append]
    omega
  · rw [placeFrom_append, List.foldl_append, BraceMatch.foldl_of_plain hls, hfold]

/-- Warnings about other things than braces do not count. -/
theorem congr (h : MatchesBraces rest m start ls ws)
    (hstray : reported .unmatchedBrace vs = reported .unmatchedBrace ws)
    (hopen : reported .unterminatedGroup vs = reported .unterminatedGroup ws) :
    MatchesBraces rest m start ls vs where
  closed hrest := hopen.trans (h.closed hrest)
  matched := by
    rw [hstray, hopen]
    exact h.matched

/-- Matching goes on after what it has taken.  If that leaves braces open, nothing
follows. -/
theorem append (h : MatchesBraces (ms ++ rest) m start ls ws)
    (hend : ms ++ rest = [] → vs = []) (hms : ∀ m' : BraceMatch, m'.opened = m.opened →
      MatchesBraces rest m' (start + (lexemesText ls).length) ms vs) :
    MatchesBraces rest m start (ls ++ ms) (ws ++ vs) := by
  by_cases hnil : ms ++ rest = []
  · -- At the end of the source nothing is appended, and what is open may stay open.
    obtain ⟨rfl, rfl⟩ := List.append_eq_nil_iff.mp hnil
    rw [hend hnil, List.append_nil, List.append_nil]
    exact ⟨fun hrest => absurd rfl hrest, h.matched⟩
  · have hclosed := h.closed hnil
    obtain ⟨pairs, hwithin, hfold⟩ := h.matched
    rw [hclosed, List.nil_append] at hfold
    obtain ⟨hrest, pairs', hwithin', hfold'⟩ := hms
      ⟨m.pairs ++ pairs, m.strays ++ reported .unmatchedBrace ws, m.opened⟩ rfl
    refine ⟨fun hne => by rw [reported_append, hclosed, hrest hne, List.append_nil],
      pairs ++ pairs', ?_, ?_⟩
    · intro p hp
      rw [lexemesText_append, List.length_append]
      rcases List.mem_append.mp hp with hp | hp
      · have := hwithin p hp
        omega
      · have := hwithin' p hp
        omega
    · rw [placeFrom_append, List.foldl_append, hfold, hfold']
      simp [hclosed]

/-- A brace that is open at the end is left open, and there is a warning about it. -/
theorem openBrace (h : MatchesBraces [] ⟨m.pairs, m.strays, start :: m.opened⟩
    (start + 1) ls ws) :
    MatchesBraces [] m start (Lexeme.start '{' :: ls)
      (ws ++ [⟨.unterminatedGroup, start, ['{']⟩]) := by
  obtain ⟨-, pairs, hwithin, hfold⟩ := h
  refine ⟨fun hne => absurd rfl hne, pairs, fun p hp => ?_, ?_⟩
  · have := hwithin p hp
    rw [lexemesText_cons, List.length_append, Lexeme.start, List.length_singleton]
    omega
  · have htake : (placeFrom start (Lexeme.start '{' :: ls)).foldl BraceMatch.step m =
        (placeFrom (start + 1) ls).foldl BraceMatch.step
          ⟨m.pairs, m.strays, start :: m.opened⟩ :=
      rfl
    rw [htake, hfold]
    simp [reported]

/-- A pair of braces is matched, and what is inside may match it as it likes. -/
theorem bracePair
    (h : MatchesBraces [Lexeme.start '}'] ⟨m.pairs, m.strays, start :: m.opened⟩
      (start + 1) ls ws) :
    MatchesBraces rest m start (Lexeme.start '{' :: (ls ++ [Lexeme.start '}'])) ws := by
  have hclosed := h.closed (by simp)
  obtain ⟨-, pairs, hwithin, hfold⟩ := h
  rw [hclosed, List.nil_append] at hfold
  refine ⟨fun _ => hclosed,
    pairs ++ [⟨start, start + 1 + (lexemesText ls).length + 1⟩], fun p hp => ?_, ?_⟩
  · rw [lexemesText_cons, lexemesText_append, lexemesText_cons,
      lexemesText_nil, Lexeme.start, Lexeme.start, List.length_append,
      List.length_append, List.append_nil, List.length_singleton, List.length_singleton]
    rcases List.mem_append.mp hp with hp | hp
    · have := hwithin p hp
      omega
    · obtain rfl := List.mem_singleton.mp hp
      simp only
      omega
  · have htake : (placeFrom start
        (Lexeme.start '{' :: (ls ++ [Lexeme.start '}']))).foldl
          BraceMatch.step m =
        (placeFrom (start + 1) (ls ++ [Lexeme.start '}'])).foldl BraceMatch.step
          ⟨m.pairs, m.strays, start :: m.opened⟩ := rfl
    rw [htake, placeFrom_append, List.foldl_append, hfold, hclosed, List.nil_append,
      ← List.append_assoc]
    rfl

/-- Braces around lexemes. -/
theorem braces {closed : Bool} (hrest : closed = false → rest = [])
    (h : MatchesBraces (charLexemes (Enclosure.braces closed).closing ++ rest)
      ⟨m.pairs, m.strays, start :: m.opened⟩ (start + 1) ls ws) :
    MatchesBraces rest m start
      (Lexeme.start '{' :: (ls ++ charLexemes (Enclosure.braces closed).closing))
      (ws ++ (Enclosure.braces closed).warnings start) := by
  cases closed with
  | false =>
      obtain rfl := hrest rfl
      simpa [Enclosure.closing, Enclosure.warnings] using openBrace h
  | true =>
      have hpair : MatchesBraces [Lexeme.start '}']
          ⟨m.pairs, m.strays, start :: m.opened⟩
          (start + 1) ls ws :=
            ⟨fun _ => h.closed (by simp [Enclosure.closing]), h.matched⟩
      simpa [Enclosure.closing, Enclosure.warnings] using bracePair hpair

end MatchesBraces

/-! ### Lexemes that are no braces -/

theorem plain_of_isText {l : Lexeme} (h : l.kind.isText = true) : l.Plain := by
  rcases LexemeKind.eq_of_isText h with h | h | h <;> simp [Lexeme.Plain, h]

theorem plain_of_isGap {l : Lexeme} (h : l.isGap = true) : l.Plain := by
  simp only [Lexeme.isGap, Bool.or_eq_true, decide_eq_true_eq] at h
  rcases h with h | h <;> simp [Lexeme.Plain, h]

theorem plain_of_isDelimiter {l : Lexeme} (h : isDelimiter l = true) : l.Plain := by
  simp only [isDelimiter, Bool.or_eq_true, decide_eq_true_eq] at h
  rcases h with ((h | h) | h) | h <;> simp [Lexeme.Plain, h]

theorem plain_of_readsText {scope : Scope} {mode : Mode}
    {rest : List Lexeme} {chars : List Char} (h : readsText scope mode rest chars) :
    ∀ l ∈ charLexemes chars, l.Plain := by
  intro l hl
  obtain ⟨c, hc, rfl⟩ := List.mem_map.mp hl
  exact plain_of_isText (isText_of_readsText h c hc)

/-! ### Nothing is read from nothing -/

variable {table : CommandTable}

theorem Tree.Reads.lexemes_ne_nil {t : Tree} {scope : Scope} {mode : Mode}
    {rest : List Lexeme} (h : t.Reads table scope mode rest) : t.lexemes ≠ [] := by
  cases t with
  | text chars =>
      simp only [Tree.Reads] at h
      obtain ⟨-, ⟨c, rfl, -⟩ | ⟨hne, -⟩⟩ := h
      · simp
      · simpa [charLexemes] using hne
  | _ => simp

/-- An argument without braces is read from something. -/
theorem bareReads.lexemes_ne_nil {mode : Mode} {slots left : List Slot}
    {rest : List Lexeme} {body : List Tree}
    (h : bareReads table mode slots left rest body) : treesLexemes body ≠ [] := by
  match body, h with
  | [], h => simp only [bareReads] at h
  | [t], h =>
      simp only [bareReads] at h
      obtain ⟨l, hl, -⟩ := h
      intro hnil
      simp_all
  | _ :: _ :: _, h => simp only [bareReads] at h

/-- At the end of the source there are no trees left to warn about. -/
theorem treesWarnings_of_lexemes_nil {scope : Scope} {mode : Mode} {rest : List Lexeme}
    {ts : List Tree} (h : treesRead table scope mode rest ts)
    (hnil : treesLexemes ts ++ rest = []) (start : Nat) :
    treesWarnings start ts = [] := by
  cases ts with
  | nil => rfl
  | cons t ts =>
      simp only [treesRead] at h
      simp [h.1.lexemes_ne_nil] at hnil

/-- At the end of the source there are no arguments left to warn about. -/
theorem argsWarnings_of_lexemes_nil {mode : Mode} {slots : List Slot}
    {rest : List Lexeme} {missing : Bool} {args : List Arg}
    (h : argsRead table mode slots rest missing args)
    (hnil : argsLexemes args ++ rest = []) (start : Nat) :
    argsWarnings start args = [] := by
  match args, h, hnil with
  | [], _, _ => rfl
  | .mk before (.brackets closed) body :: args, _,
      hnil => simp [Enclosure.opening] at hnil
  | .mk before (.braces closed) body :: args, _,
      hnil => simp [Enclosure.opening] at hnil
  | .mk before .bare body :: args, h, hnil =>
      simp only [argsRead] at h
      obtain ⟨-, left, hbody, -⟩ := h
      have hne := hbody.lexemes_ne_nil
      simp [hne] at hnil

/-! ### The induction over the trees -/

theorem argsLexemes_cons (arg : Arg) (args : List Arg) :
    argsLexemes (arg :: args) = argsLexemes [arg] ++ argsLexemes args := by
  cases arg
  simp

/-- The warnings about arguments come in the order of the arguments. -/
theorem argsWarnings_cons (start : Nat) (arg : Arg) (args : List Arg) :
    argsWarnings start (arg :: args) =
      argsWarnings start [arg] ++
        argsWarnings (start + (argsChars [arg]).length) args := by
  cases arg
  simp [argsWarnings]

/-- A command is read in the same way in every scope. -/
theorem Tree.Reads.of_controlWord {t : Tree} {scope scope' : Scope} {mode : Mode}
    {rest : List Lexeme} {l : Lexeme} (h : t.Reads table scope mode rest)
    (hl : l ∈ t.lexemes.head?) (hword : l.kind = .controlWord) :
    t.Reads table scope' mode rest := by
  obtain ⟨args, missing, rfl⟩ := h.eq_command hl hword
  simpa only [Tree.Reads] using h

/-- A single lexeme that is no brace matches as an argument. -/
theorem matchesBraces_atom {l : Lexeme} {rest : List Lexeme}
    {m : BraceMatch} {start : Nat} (hl : l ∈ (atom l).lexemes.head?)
    (hplain : l.Plain) :
    MatchesBraces rest m start (atom l).lexemes ((atom l).warnings start) := by
  have hnone : (atom l).warnings start = [] := by
    unfold atom
    split_ifs <;> rfl
  rw [lexemes_atom hl, hnone]
  exact .of_plain (by simpa using hplain)

/-- An argument matches as its content does, with the braces around it if there are
any. -/
theorem matchesBraces_argument {before : List Lexeme}
    {enclosure : Enclosure} {body : List Tree} {rest : List Lexeme} {m : BraceMatch}
    {start : Nat} (hbefore : ∀ l ∈ before, l.isGap = true)
    (hrest : enclosure = .braces false → rest = [])
    (hbody : ∀ m' : BraceMatch, MatchesBraces (charLexemes enclosure.closing ++ rest) m'
      (start + (lexemesText before).length + enclosure.opening.length)
        (treesLexemes body)
      (treesWarnings (start + (lexemesText before).length + enclosure.opening.length)
        body)) :
    MatchesBraces rest m start (argsLexemes [.mk before enclosure body])
      (argsWarnings start [.mk before enclosure body]) := by
  simp only [argsLexemes, argsWarnings, List.append_nil]
  refine .plain_append (fun l hl => plain_of_isGap (hbefore l hl)) ?_
  match enclosure, hrest, hbody with
  | .bare, _, hbody =>
      simpa [Enclosure.opening, Enclosure.closing, Enclosure.warnings] using hbody m
  | .braces closed, hrest, hbody =>
      exact .braces (fun hclosed => hrest (by rw [hclosed])) (hbody _)
  | .brackets closed, _, hbody =>
      have hopen : ∀ l ∈ [Lexeme.start '['], l.Plain := by simp +decide [Lexeme.Plain]
      have hclose : ∀ l ∈ charLexemes (Enclosure.brackets closed).closing, l.Plain := by
        cases closed <;> simp +decide [Enclosure.closing, Lexeme.Plain]
      have hinside := (hbody m).append (fun _ => rfl) fun _ _ => .of_plain hclose
      -- Brackets that are not closed are reported, but not as a group.
      refine .plain_append hopen (hinside.congr ?_ ?_)
      · cases closed <;> simp [Enclosure.warnings, reported]
      · cases closed <;> simp [Enclosure.warnings, reported]

mutual

/-- The warnings about a tree report the braces in it that do not match. -/
theorem Tree.matchesBraces :
    (t : Tree) → (start : Nat) → (scope : Scope) → (mode : Mode) →
    (rest : List Lexeme) → (m : BraceMatch) → t.Reads table scope mode rest →
      (scope = .top → m.opened = []) →
        MatchesBraces rest m start t.lexemes (t.warnings start)
  | .text chars, _, _, _, _, _, hreads, _ => by
      simp only [Tree.Reads] at hreads
      exact .of_plain (plain_of_readsText hreads)
  | .gap lexeme, _, _, _, _, _, hreads, _ => by
      simp only [Tree.Reads] at hreads
      exact .of_plain (by simpa using plain_of_isGap hreads)
  | .stray, start, _, _, _, ⟨pairs, strays, opened⟩, hreads, htop => by
      simp only [Tree.Reads] at hreads
      obtain rfl : opened = [] := htop hreads
      exact ⟨fun _ => rfl, [], by simp, by rw [List.append_nil]; rfl⟩
  | .group body closed, start, _, mode, rest, m, hreads, _ => by
      simp only [Tree.Reads] at hreads
      obtain ⟨hbody, hopen⟩ := hreads
      have hmatch := treesMatch body (start + 1) .braces mode _
        ⟨m.pairs, m.strays, start :: m.opened⟩
        hbody (by simp)
      cases closed <;> exact .braces hopen hmatch
  | .command head args missing, start, _, mode, rest, m, hreads, _ => by
      simp only [Tree.Reads] at hreads
      rcases hreads with ⟨hkind, rfl, rfl⟩ | ⟨hkind, hargs⟩
      · refine .of_plain ?_
        simp [Lexeme.Plain, hkind]
      · have hhead : ∀ l ∈ [head], l.Plain := by
          rcases hkind with h | h | h <;> simp [Lexeme.Plain, h]
        have hmatch := argsMatch args (start + (lexemesText [head]).length) _ _
          rest missing m hargs
        refine (MatchesBraces.plain_append hhead hmatch).congr ?_ ?_
        · cases missing <;> simp [Tree.warnings, reported]
        · cases missing <;> simp [Tree.warnings, reported]

/-- **Reading agrees with matching.** -/
theorem treesMatch :
    (ts : List Tree) → (start : Nat) → (scope : Scope) → (mode : Mode) →
    (rest : List Lexeme) → (m : BraceMatch) → treesRead table scope mode rest ts →
      (scope = .top → m.opened = []) →
      MatchesBraces rest m start (treesLexemes ts) (treesWarnings start ts)
  | [], _, _, _, _, _, _, _ => .of_plain (by simp)
  | t :: ts, start, scope, mode, rest, m, hreads, htop => by
      simp only [treesRead] at hreads
      refine .append (t.matchesBraces start scope mode _ m hreads.1 htop)
        (fun hnil => treesWarnings_of_lexemes_nil hreads.2 hnil _) fun m' hm' => ?_
      rw [t.lexemesText_lexemes]
      exact treesMatch ts _ scope mode rest m' hreads.2 fun h => by rw [hm', htop h]

/-- The warnings about arguments report the braces in them that do not match. -/
theorem argsMatch :
    (args : List Arg) → (start : Nat) → (mode : Mode) → (slots : List Slot) →
    (rest : List Lexeme) → (missing : Bool) → (m : BraceMatch) →
      argsRead table mode slots rest missing args →
      MatchesBraces rest m start (argsLexemes args) (argsWarnings start args)
  | [], _, _, _, _, _, _, _ => .of_plain (by simp)
  | .mk before enclosure body :: args, start, mode, slots, rest, missing, m,
      hreads => by
      obtain ⟨hbefore, hlast, hcontent, left, hargs⟩ := argsRead_cons hreads
      rw [argsLexemes_cons, argsWarnings_cons]
      refine .append (matchesBraces_argument hbefore hlast fun m' => ?_)
        (fun hnil => argsWarnings_of_lexemes_nil hargs hnil _) fun m' _ => ?_
      · rcases hcontent with ⟨scope, hscope, hbody⟩ | ⟨slots', left', hbody⟩
        · exact treesMatch body _ scope mode _ m' hbody fun h => absurd h hscope
        · exact bareMatch body _ mode slots' left' _ m' hbody
      · rw [lexemesText_argsLexemes]
        exact argsMatch args _ mode left rest missing m' hargs

theorem bareMatch : (body : List Tree) → (start : Nat) → (mode : Mode) →
    (slots left : List Slot) → (rest : List Lexeme) → (m : BraceMatch) →
    bareReads table mode slots left rest body →
      MatchesBraces rest m start (treesLexemes body) (treesWarnings start body)
  | [], _, _, _, _, _, _, hreads => by simp only [bareReads] at hreads
  | [t], start, mode, _, _, rest, m, hreads => by
      simp only [bareReads] at hreads
      simp only [treesLexemes, treesWarnings, List.append_nil]
      obtain ⟨l, hl, ⟨-, hdelimiter, rfl⟩ | ⟨-, ⟨hword, ht⟩ | ⟨hkind, rfl⟩⟩⟩ := hreads
      · exact matchesBraces_atom hl (plain_of_isDelimiter hdelimiter)
      · -- The grammar reads the command at the top, where the stack would have to be
        -- empty.
        exact t.matchesBraces start .braces mode rest m (ht.of_controlWord hl hword)
          (by simp)
      · refine matchesBraces_atom hl ?_
        rcases hkind with h | h
        · exact plain_of_isText h
        · simp [Lexeme.Plain, h]
  | _ :: _ :: _, _, _, _, _, _, _, hreads => by simp only [bareReads] at hreads

end

/-! ### Characters between top-level trees -/

/-- A character that is a top-level tree of its own is a token outside of all
braces. -/
theorem outside_braces {source : String} {ts us : List Tree} {c : Char}
    (h : (parse table source).trees = ts ++ .text [c] :: us) :
    ⟨Lexeme.start c, (treesChars ts).length⟩ ∈ tokenize source ∧
      ¬ (matchBraces (tokenize source)).Encloses (treesChars ts).length := by
  have hlex := parse_lexemes table source
  have hreads := parse_reads table source
  rw [h] at hlex hreads
  obtain ⟨hfirst, hsecond⟩ := treesRead_append.mp hreads
  simp only [treesRead] at hsecond
  have htokens : tokenize source = placeFrom 0 (treesLexemes ts) ++
      ⟨Lexeme.start c, (treesChars ts).length⟩ ::
        placeFrom ((treesChars ts).length + 1) (treesLexemes us) := by
    rw [tokenize, ← hlex, treesLexemes_append, placeFrom_append,
      lexemesText_treesLexemes, Nat.zero_add]
    rfl
  have hplain : (Lexeme.start c).Plain := by
    have htext := hsecond.1
    simp only [Tree.Reads] at htext
    exact plain_of_readsText htext _ (by simp)
  -- Nothing is open in front of the character, and all that is found later starts
  -- after it.
  obtain ⟨hclosed, before, hbefore, hfold⟩ :=
    treesMatch ts 0 .top .math _ ⟨[], [], []⟩ hfirst (fun _ => rfl)
  rw [hclosed (by simp)] at hfold
  obtain ⟨-, after, hafter, hfold'⟩ :=
    treesMatch us ((treesChars ts).length + 1) .top .math []
      ⟨[] ++ before, [] ++ reported .unmatchedBrace (treesWarnings 0 ts), []⟩
        hsecond.2 (fun _ => rfl)
  obtain ⟨strays, hmatch⟩ : ∃ strays, matchBraces (tokenize source) =
      ⟨before ++ after, strays,
        reported .unterminatedGroup
          (treesWarnings ((treesChars ts).length + 1) us)⟩ := by
    rw [matchBraces, htokens, List.foldl_append, List.foldl_cons, hfold,
      BraceMatch.step_of_plain hplain]
    exact ⟨_, hfold'.trans (by rw [List.append_nil, List.nil_append])⟩
  have hproper : ∀ l ∈ treesLexemes us, l.text ≠ [] := by
    intro l hl
    refine (lex_proper source.toList l ?_).text_ne_nil
    rw [← hlex]
    simp [hl]
  refine ⟨by simp [htokens], ?_⟩
  rw [hmatch]
  rintro (⟨p, hp, hstart, hstop⟩ | ⟨p, hp, hle⟩)
  · rw [lexemesText_treesLexemes] at hbefore
    rcases List.mem_append.mp hp with hp | hp
    · have := hbefore p hp
      omega
    · have := hafter p hp
      omega
  · obtain ⟨w, hw, rfl⟩ := exists_of_mem_reported hp
    have := position_of_mem_treesWarnings us _ hproper w hw
    omega

end Formulary.Markup
