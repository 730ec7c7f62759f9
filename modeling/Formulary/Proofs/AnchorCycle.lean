import Formulary.Proofs.CellAddresses
import Mathlib.Data.Fintype.Prod
import Mathlib.Dynamics.PeriodicPts.Defs

/-!
# Cycling through the anchors

An address can be anchored in four ways, and advancing its anchors goes through all
of them and comes back.  A text that is no address stays where it is.

Advancing works on texts: it reads the address, changes the anchors and writes the
address again.  Since writing undoes reading and reading undoes writing, each step is
a step of the cell (`semiconj_format`), and each step of the cell is a step of its
two anchors (`semiconj_anchors`).  What is left is a cycle of length four.

* `iterate_nextAnchors_eq_iff` and `existsUnique_iterate_nextAnchors` are about the
  anchors alone.
* `cycleAnchors_period` is the main statement.
-/

namespace Formulary.CellReference

open Function

/-- The anchors of a cell, of the column and of the row. -/
def anchors (cell : CellReference) : Bool × Bool :=
  (cell.colAbsolute, cell.rowAbsolute)

/-! ### The anchors alone -/

theorem isPeriodicPt_nextAnchors (a : Bool × Bool) : IsPeriodicPt nextAnchors 4 a := by
  have hall : ∀ a, nextAnchors^[4] a = a := by decide
  exact hall a

/-- The anchors come back after four steps and not before. -/
theorem iterate_nextAnchors_eq_iff (a : Bool × Bool)
    (n : Nat) : nextAnchors^[n] a = a ↔ 4 ∣ n := by
  have hsmall : ∀ k : Fin 4, ∀ a, nextAnchors^[k] a = a ↔ (k : Nat) = 0 := by decide
  have hlt : n % 4 < 4 := Nat.mod_lt n (by decide)
  rw [← (isPeriodicPt_nextAnchors a).iterate_mod_apply n, Nat.dvd_iff_mod_eq_zero]
  exact hsmall ⟨n % 4, hlt⟩ a

/-- All anchors are met within four steps, each of them once. -/
theorem existsUnique_iterate_nextAnchors (a b : Bool × Bool) :
    ∃! k, k < 4 ∧ nextAnchors^[k] a = b := by
  have hmeets : ∀ a b, ∃ k : Fin 4, nextAnchors^[k] a = b ∧
      ∀ j : Fin 4, nextAnchors^[j] a = b → j = k := by decide
  obtain ⟨k, hk, hunique⟩ := hmeets a b
  refine ⟨k, ⟨k.isLt, hk⟩, ?_⟩
  rintro j ⟨hj, hja⟩
  exact congrArg Fin.val (hunique ⟨j, hj⟩ hja)

/-! ### From anchors to addresses -/

/-- The anchors of a reference go round on their own: the cell has no part in it. -/
theorem semiconj_anchors : Semiconj anchors nextAnchored nextAnchors :=
  fun _ => rfl

/-- Advancing the address of a cell gives the address of the advanced cell. -/
theorem semiconj_format : Semiconj format nextAnchored cycleAnchors := by
  intro cell
  rw [cycleAnchors, parse_format]

/-- The anchors after some steps are those of as many steps on the anchors alone. -/
theorem anchors_iterate (cell : CellReference) (n : Nat) :
    (nextAnchored^[n] cell).anchors = nextAnchors^[n] cell.anchors :=
  (semiconj_anchors.iterate_right n) cell

/-- However many steps are taken, the cell stays the same. -/
theorem row_col_iterate (cell : CellReference) (n : Nat) :
    (nextAnchored^[n] cell).row = cell.row ∧
      (nextAnchored^[n] cell).col = cell.col := by
  induction n with
  | zero => exact ⟨rfl, rfl⟩
  | succ n ih =>
      rw [iterate_succ_apply']
      exact ih

/-- A cell is known by its row, its column and its anchors. -/
theorem eq_of_anchors {cell other : CellReference} (hrow : cell.row = other.row)
    (hcol : cell.col = other.col)
    (hanchors : cell.anchors = other.anchors) : cell = other := by
  obtain ⟨hcolAbsolute, hrowAbsolute⟩ := Prod.mk.inj hanchors
  cases cell
  cases other
  simp_all

/-- A reference comes back exactly after the multiples of four, since its anchors
do. -/
theorem iterate_nextAnchored_eq_iff (cell : CellReference) (n : Nat) :
    nextAnchored^[n] cell = cell ↔ 4 ∣ n := by
  rw [← iterate_nextAnchors_eq_iff cell.anchors n, ← anchors_iterate]
  constructor
  · intro h
    rw [h]
  · intro h
    obtain ⟨hrow, hcol⟩ := row_col_iterate cell n
    exact eq_of_anchors hrow hcol h

/-- Going round on texts is going round on references, as long as the text is one. -/
theorem parse_iterate {ref : String} {cell : CellReference}
    (h : parse ref = .ok cell) (n : Nat) :
    parse (cycleAnchors^[n] ref) = .ok (nextAnchored^[n] cell) := by
  rw [← format_of_parse h, ← semiconj_format.iterate_right n cell, parse_format]

/-- A reference can be told from its text, because the text is read as the
reference. -/
theorem format_injective : Injective format := by
  intro cell other h
  have hparse := parse_format cell
  rw [h, parse_format] at hparse
  exact (Except.ok.inj hparse).symm

/-- A text that is no address stays as it is. -/
theorem iterate_cycleAnchors_of_not_isValid {ref : String}
    (h : isValid ref = false) (n : Nat) :
    cycleAnchors^[n] ref = ref := by
  apply iterate_fixed
  cases hparse : parse ref with
  | ok cell => simp [isValid, hparse] at h
  | error err => rw [cycleAnchors, hparse]

/-- **Anchors are cycled with a period of exactly four.**  A text comes back after
the multiples of four steps, and after other numbers of steps only if it is no
address.  On the way from an address every text is the address of the same cell, and
any four in a row show each choice of anchors once. -/
theorem cycleAnchors_period (ref : String) :
    (∀ n, cycleAnchors^[n] ref = ref ↔ isValid ref = false ∨ 4 ∣ n) ∧
      ∀ cell, parse ref = .ok cell → ∀ n,
        (∃ there, parse (cycleAnchors^[n] ref) = .ok there ∧
          there.row = cell.row ∧ there.col = cell.col) ∧
        ∀ choice : Bool × Bool, ∃! k, k < 4 ∧
          ∃ there, parse (cycleAnchors^[n + k] ref) = .ok there ∧
            there.anchors = choice := by
  constructor
  · intro n
    cases hparse : parse ref with
    | error err =>
        have hinvalid : isValid ref = false := by simp [isValid, hparse]
        simp [hinvalid, iterate_cycleAnchors_of_not_isValid hinvalid n]
    | ok cell =>
        have hvalid : isValid ref = true := isValid_iff.mpr ⟨cell, hparse⟩
        -- Formatting turns steps of the cycle on texts into steps on cells.
        rw [hvalid, ← iterate_nextAnchored_eq_iff cell n, ← format_of_parse hparse,
          ← semiconj_format.iterate_right n cell, format_injective.eq_iff]
        simp
  · intro cell hparse n
    refine ⟨⟨_, parse_iterate hparse n, row_col_iterate cell n⟩, fun choice => ?_⟩
    -- The anchors run through a cycle of their own, whatever row and column they
    -- stand at.
    have hsteps : ∀ k, (∃ there, parse (cycleAnchors^[n + k] ref) = .ok there ∧
        there.anchors = choice) ↔
          nextAnchors^[k] (nextAnchors^[n] cell.anchors) = choice := by
      intro k
      rw [parse_iterate hparse, ← iterate_add_apply,
        Nat.add_comm k n, ← anchors_iterate]
      simp
    simp only [hsteps]
    exact existsUnique_iterate_nextAnchors _ choice

/-- The last cell of the sheet with its row anchored, and a text that is spelled like
an address but lies past the end of the sheet. -/
theorem cycleAnchors_period_last_cell :
    (∃ cell, parse "XFD$1048576" = .ok cell ∧ cell.row = 1048576 ∧ cell.col = 16384 ∧
        ∀ choice : Bool × Bool, ∃! k, k < 4 ∧
          ∃ there, parse (cycleAnchors^[5 + k] "XFD$1048576") = .ok there ∧
            there.anchors = choice) ∧
      cycleAnchors^[8] "XFD$1048576" = "XFD$1048576" ∧
      cycleAnchors^[6] "XFD$1048576" ≠ "XFD$1048576" ∧
      isValid "XFE1" = false ∧ cycleAnchors^[3] "XFE1" = "XFE1" := by
  have hlast : parse "XFD$1048576" =
      .ok ⟨1048576, 16384, true, false, by decide, by decide⟩ := by
    decide +kernel
  have hinvalid : isValid "XFE1" = false := by decide +kernel
  obtain ⟨hperiod, hcell⟩ := cycleAnchors_period "XFD$1048576"
  have hback : cycleAnchors^[6] "XFD$1048576" ≠ "XFD$1048576" := by
    rw [ne_eq, hperiod 6]
    decide +kernel
  exact ⟨⟨_, hlast, rfl, rfl, (hcell _ hlast 5).2⟩,
    (hperiod 8).mpr (.inr (by decide)), hback, hinvalid,
    ((cycleAnchors_period "XFE1").1 3).mpr (.inl hinvalid)⟩

end Formulary.CellReference
