import Formulary.Markup.Warning
import Formulary.Proofs.Totality

/-!
# What a reading sees of what follows it

A tree is read in view of the lexemes behind it, but it sees little of them: the kind
of the first one, which may go on a run of characters or close brackets too early,
and the first one behind blanks and comments, which may be an argument.  A closing
brace is like the end of the source in both respects.  The end itself shows only
where braces are left open.

* `Replaces` says that nothing in front can tell two continuations of a source apart,
  braces that are left open excepted.
* `treesRead_of_replaces` says that a reading stays one when its continuation is
  replaced.
* `treesRead_nil` is the case of a source that ends earlier.
-/

namespace Formulary.Markup

variable {table : CommandTable}

/-! ### Continuations -/

/-- What may stand in the place of `rest` without anything in front of it going on: a
closing brace, or what starts alike. -/
structure Replaces (rest' rest : List Lexeme) : Prop where
  head : ∀ m ∈ rest'.head?, m.kind = .closeBrace ∨ ∃ l ∈ rest.head?, l.kind = m.kind
  ahead : ∀ m ∈ ahead rest', m.kind = .closeBrace ∨ m ∈ ahead rest

namespace Replaces

variable {rest rest' : List Lexeme}

/-- The end of the source may stand in place of anything. -/
theorem end_of_source (rest : List Lexeme) : Replaces [] rest where
  head m hm := by simp at hm
  ahead m hm := by simp [Markup.ahead] at hm

theorem closeBrace (tail rest : List Lexeme) :
    Replaces (Lexeme.start '}' :: tail) rest where
  head m hm := by
    obtain rfl : Lexeme.start '}' = m := by simpa using hm
    exact .inl rfl
  ahead m hm := by
    rw [ahead_cons_of_not_isGap rfl, Option.mem_some_iff] at hm
    subst hm
    exact .inl rfl

/-- A lexeme that is no blank and no comment hides what follows it. -/
theorem same_start {l : Lexeme} (hl : l.isGap = false) (ls ls' : List Lexeme) :
    Replaces (l :: ls') (l :: ls) where
  head m hm := .inr ⟨l, rfl, by rw [Option.mem_some_iff.mp hm]⟩
  ahead m hm := by
    rw [ahead_cons_of_not_isGap hl] at hm ⊢
    exact .inr hm

theorem append (h : Replaces rest' rest) (front : List Lexeme) :
    Replaces (front ++ rest') (front ++ rest) where
  head m hm := by
    cases front with
    | nil => exact h.head m hm
    | cons l front => exact .inr ⟨m, hm, rfl⟩
  ahead m hm := by
    simp only [Markup.ahead, List.find?_append] at hm ⊢
    cases hfront : front.find? (!·.isGap) with
    | some l =>
        rw [hfront] at hm
        exact .inr hm
    | none =>
        rw [hfront, Option.none_or] at hm
        exact h.ahead m hm

end Replaces

/-- What was not accepted as an argument is not accepted in its new form. -/
theorem accepts_of_replaces {rest rest' : List Lexeme}
    (h : Replaces rest' rest) {slots : List Slot}
    (hrest : ∀ l ∈ ahead rest, accepts l slots = false) :
    ∀ l ∈ ahead rest', accepts l slots = false := by
  intro l hl
  rcases h.ahead l hl with hkind | hl
  · exact accepts_closeBrace hkind slots
  · exact hrest l hl

theorem readsText_of_replaces {scope : Scope} {mode : Mode} {rest rest' : List Lexeme}
    {chars : List Char} (h : Replaces rest' rest)
    (htext : readsText scope mode rest chars) :
    readsText scope mode rest' chars := by
  obtain ⟨hbracket, hsingle | ⟨hne, hjoin, hend⟩⟩ := htext
  · exact ⟨hbracket, .inl hsingle⟩
  · refine ⟨hbracket, .inr ⟨hne, hjoin, fun m hm => ?_⟩⟩
    rcases h.head m hm with hkind | ⟨l, hl, hkind⟩
    · rw [hkind]
      cases mode <;> rfl
    · rw [← hkind]
      exact hend l hl

/-- Where brackets were closed too early, they still are. -/
theorem closeBrace_of_replaces {rest rest' : List Lexeme} (h : Replaces rest' rest)
    (hrest : ∀ l ∈ rest.head?, l.kind = .closeBrace) :
    ∀ m ∈ rest'.head?, m.kind = .closeBrace := by
  intro m hm
  rcases h.head m hm with hkind | ⟨l, hl, hkind⟩
  · exact hkind
  · rw [← hkind]
    exact hrest l hl

/-! ### Braces that are left open -/

/-- Warnings none of which makes a given complaint. -/
def Without (complaint : Complaint) (ws : List Warning) : Prop :=
  ∀ w ∈ ws, w.complaint ≠ complaint

theorem without_append {complaint : Complaint} {ws vs : List Warning} :
    Without complaint (ws ++ vs) ↔ Without complaint ws ∧ Without complaint vs :=
  List.forall_mem_append

/-- The end of the source does not show: it stays where it was, or no group is left
open by it. -/
def EndHidden (rest' rest : List Lexeme) (ws : List Warning) : Prop :=
  (rest = [] → rest' = []) ∨ Without .unterminatedGroup ws

namespace EndHidden

variable {rest rest' : List Lexeme} {ws vs : List Warning}

theorem append (h : EndHidden rest' rest ws) (front : List Lexeme) :
    EndHidden (front ++ rest') (front ++ rest) ws := by
  refine h.imp_left fun hend hnil => ?_
  obtain ⟨rfl, hrest⟩ := List.append_eq_nil_iff.mp hnil
  exact hend hrest

/-- What is hidden from all warnings is hidden from the first of them. -/
theorem left (h : EndHidden rest' rest (ws ++ vs)) : EndHidden rest' rest ws :=
  h.imp_right fun hws => (without_append.mp hws).1

/-- What is hidden from all warnings is hidden from the last of them. -/
theorem right (h : EndHidden rest' rest (ws ++ vs)) : EndHidden rest' rest vs :=
  h.imp_right fun hws => (without_append.mp hws).2

/-- Braces that are left open still have the end of the source behind them. -/
theorem eq_nil {position : Nat}
    (h : EndHidden rest' rest ((Enclosure.braces false).warnings position))
    (hrest : rest = []) : rest' = [] := by
  rcases h with hend | hwarns
  · exact hend hrest
  · exact absurd rfl (hwarns _ (List.mem_singleton_self _))

end EndHidden

/-! ### Replacing what follows -/

mutual

/-- A tree is read as before when what follows it is replaced. -/
theorem Tree.reads_of_replaces :
    (t : Tree) → (start : Nat) → (scope : Scope) → (mode : Mode) →
      (rest rest' : List Lexeme) → Replaces rest' rest →
    EndHidden rest' rest (t.warnings start) → t.Reads table scope mode rest →
      t.Reads table scope mode rest'
  | .text chars, _, _, _, _, _, hrest, _, hreads => by
      simp only [Tree.Reads] at hreads ⊢
      exact readsText_of_replaces hrest hreads
  | .gap _, _, _, _, _, _, _, _, hreads => by simpa only [Tree.Reads] using hreads
  | .stray, _, _, _, _, _, _, _, hreads => by simpa only [Tree.Reads] using hreads
  | .group body closed, start, _, mode, rest, rest', hrest, hend, hreads => by
      simp only [Tree.Reads] at hreads ⊢
      rw [Tree.warnings] at hend
      refine ⟨treesRead_of_replaces body (start + 1) .braces mode _ _ (hrest.append _)
        (hend.left.append _) hreads.1, ?_⟩
      -- Only an open brace asks for the end of the source itself, and it warns.
      rintro rfl
      exact hend.right.eq_nil (hreads.2 rfl)
  | .command head args missing, start, _, mode, rest, rest', hrest, hend, hreads => by
      simp only [Tree.Reads] at hreads ⊢
      rw [Tree.warnings] at hend
      exact hreads.imp_right fun h =>
        ⟨h.1, argsRead_of_replaces args _ _ _ rest rest' missing hrest hend.left h.2⟩

/-- **A reading looks at most one lexeme ahead**, over blanks and comments, and takes
a closing brace for the end of the source unless it leaves braces open. -/
theorem treesRead_of_replaces :
    (ts : List Tree) → (start : Nat) → (scope : Scope) → (mode : Mode) →
      (rest rest' : List Lexeme) → Replaces rest' rest →
    EndHidden rest' rest (treesWarnings start ts) → treesRead table scope mode rest ts →
      treesRead table scope mode rest' ts
  | [], _, _, _, _, _, _, _, _ => by simp only [treesRead]
  | t :: ts, start, scope, mode, rest, rest', hrest, hend, hreads => by
      simp only [treesRead] at hreads ⊢
      rw [treesWarnings] at hend
      exact ⟨t.reads_of_replaces start scope mode _ _ (hrest.append _)
        (hend.left.append _) hreads.1,
        treesRead_of_replaces ts _ scope mode rest rest' hrest hend.right hreads.2⟩

/-- Arguments are read as before when what follows them is replaced. -/
theorem argsRead_of_replaces :
    (args : List Arg) → (start : Nat) → (mode : Mode) → (slots : List Slot) →
    (rest rest' : List Lexeme) → (missing : Bool) → Replaces rest' rest →
    EndHidden rest' rest (argsWarnings start args) →
      argsRead table mode slots rest missing args →
        argsRead table mode slots rest' missing args
  | [], _, _, _, _, _, _, hrest, _, hreads => by
      simp only [argsRead] at hreads ⊢
      exact ⟨accepts_of_replaces hrest hreads.1, hreads.2⟩
  | .mk before (.brackets closed) body :: args, start, mode, slots, rest, rest',
      missing, hrest, hend,
      hreads => by
      simp only [argsRead] at hreads ⊢
      rw [argsWarnings] at hend
      obtain ⟨hgap, hbody, hopen, left, hslots, hargs⟩ := hreads
      exact ⟨hgap, treesRead_of_replaces body _ .brackets mode _ _
        ((hrest.append _).append _)
          ((hend.left.left.append _).append _) hbody,
        fun hclosed => ⟨(hopen hclosed).1,
          closeBrace_of_replaces hrest (hopen hclosed).2⟩, left, hslots,
          argsRead_of_replaces args _ mode left rest rest' missing
            hrest hend.right hargs⟩
  | .mk before (.braces closed) body :: args, start, mode, slots, rest, rest',
      missing, hrest, hend,
      hreads => by
      simp only [argsRead] at hreads ⊢
      rw [argsWarnings] at hend
      obtain ⟨hgap, hbody, hopen, left, hslots, hargs⟩ := hreads
      refine ⟨hgap, treesRead_of_replaces body _ .braces mode _ _
        ((hrest.append _).append _)
          ((hend.left.left.append _).append _) hbody, ?_, left, hslots,
        argsRead_of_replaces args _ mode left rest rest' missing hrest hend.right hargs⟩
      rintro rfl
      exact ⟨(hopen rfl).1, hend.left.right.eq_nil (hopen rfl).2⟩
  | .mk before .bare body :: args, start, mode, slots, rest, rest', missing,
      hrest, hend, hreads => by
      simp only [argsRead] at hreads ⊢
      rw [argsWarnings] at hend
      obtain ⟨hgap, left, hbody, hargs⟩ := hreads
      exact ⟨hgap, left,
        bareReads_of_replaces body _ mode slots left _ _ (hrest.append _)
          (hend.left.left.append _) hbody,
        argsRead_of_replaces args _ mode left rest rest' missing hrest hend.right hargs⟩

theorem bareReads_of_replaces : (body : List Tree) → (start : Nat) → (mode : Mode) →
    (slots left : List Slot) → (rest rest' : List Lexeme) → Replaces rest' rest →
    EndHidden rest' rest (treesWarnings start body) →
    bareReads table mode slots left rest body →
      bareReads table mode slots left rest' body
  | [], _, _, _, _, _, _, _, _, hreads => by simp only [bareReads] at hreads
  | [t], start, mode, _, _, rest, rest', hrest, hend, hreads => by
      simp only [bareReads] at hreads ⊢
      rw [treesWarnings] at hend
      obtain ⟨l, hl, hdelimiter | ⟨hslot, ⟨hword, ht⟩ | hatom⟩⟩ := hreads
      · exact ⟨l, hl, .inl hdelimiter⟩
      · exact ⟨l, hl, .inr ⟨hslot, .inl ⟨hword,
          t.reads_of_replaces start .top mode rest rest' hrest hend.left ht⟩⟩⟩
      · exact ⟨l, hl, .inr ⟨hslot, .inr hatom⟩⟩
  | _ :: _ :: _, _, _, _, _, _, _, _, _, hreads => by simp only [bareReads] at hreads

end

/-- A reading stays one when the source ends after it. -/
theorem treesRead_nil {scope : Scope} {mode : Mode}
    {rest : List Lexeme} {ts : List Tree} (h : treesRead table scope mode rest ts) :
    treesRead table scope mode [] ts :=
  treesRead_of_replaces ts 0 scope mode rest [] (.end_of_source rest)
    (.inl fun _ => rfl) h

end Formulary.Markup
