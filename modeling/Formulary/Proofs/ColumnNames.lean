import Formulary.Cell.Column
import Mathlib.Data.List.Basic
import Mathlib.Data.List.Induction
import Mathlib.Data.List.Shortlex

/-!
# Column names as numerals

The names of columns are the numerals of a system with the digits 1 to 26 and no
zero.  A name and its number determine each other, because the last letter of the
name is the lowest digit of the number and what is left of both is again a name and
its number.  For the same reason names stand in the order of their numbers: a shorter
name comes first, and of two names of one length the one that comes first in a
dictionary.

* `number_letters` reads the name of a number.
* `exists_number_of_isUpper` finds the number of a name, and the name is the one of
  that number.
* `length_letters_le_three` bounds the length of the names that sheets use.
* `shortlex_letters_iff` compares names.
* `names_are_numerals` puts the two directions and the order together.
-/

namespace Formulary.Column

/-! ### Letters -/

/-- The letters that have a value are the 26 capitals. -/
theorem letterValue?_eq_some_iff {c : Char} {value : Nat} :
    letterValue? c = some value ↔ ∃ n, n < 26 ∧ c = letter n ∧ value = n + 1 := by
  constructor
  · intro h
    simp only [letterValue?, Option.ite_none_right_eq_some, Option.some.injEq] at h
    obtain ⟨⟨hlow, hhigh⟩, rfl⟩ := h
    have hlow : 65 ≤ c.toNat := hlow
    have hhigh : c.toNat ≤ 90 := hhigh
    refine ⟨c.toNat - 65, by omega, ?_, rfl⟩
    have hcode : 'A'.toNat + (c.toNat - 65) = c.toNat := by
      change 65 + (c.toNat - 65) = c.toNat
      omega
    rw [letter, hcode, Char.ofNat_toNat]
  · rintro ⟨n, hn, rfl, rfl⟩
    have hall : ∀ n < 26, letterValue? (letter n) = some (n + 1) := by decide
    exact hall n hn

theorem isUpper_iff_range {c : Char} : c.isUpper = true ↔ 'A' ≤ c ∧ c ≤ 'Z' :=
  decide_eq_true_iff

theorem isUpper_iff {c : Char} :
    c.isUpper = true ↔ ∃ value, letterValue? c = some value := by
  rw [isUpper_iff_range]
  constructor
  · intro h
    exact ⟨_, if_pos h⟩
  · rintro ⟨value, h⟩
    by_contra hnot
    simp [letterValue?, hnot] at h

/-! ### The last letter -/

@[simp] theorem number_nil : number [] = .ok 0 := rfl

/-- Numbers are read from the left, so the last letter is read last. -/
theorem number_append_singleton (w : List Char) (c : Char) :
    number (w ++ [c]) = number w >>= fun n => extend n c := by
  rw [number, List.foldlM_append]
  change (number w >>= fun n => extend n c >>= pure) = _
  simp only [bind_pure]

/-- A name with one letter more has as its number 26 times what it had and the value
of the letter. -/
theorem number_append_letter {w : List Char} {n m : Nat}
    (hw : number w = .ok n) (hm : m < 26) :
    number (w ++ [letter m]) = .ok (n * 26 + m + 1) := by
  have hvalue : letterValue? (letter m) = some (m + 1) :=
    letterValue?_eq_some_iff.mpr ⟨m, hm, rfl, rfl⟩
  rw [number_append_singleton, hw]
  change extend n (letter m) = _
  simp only [extend, hvalue, Nat.add_assoc]

/-! ### Numbers and names -/

/-- The name of a number has this number. -/
theorem number_letters (n : Nat) : number (letters n) = .ok n := by
  induction n using Nat.strongRecOn with
  | _ n ih =>
      cases n with
      | zero => rw [letters_zero, number_nil]
      | succ n =>
          have hrest : number (letters (n / 26)) = .ok (n / 26) :=
            ih (n / 26) (by omega)
          have hdigits : n / 26 * 26 + n % 26 + 1 = n + 1 := by omega
          rw [letters_succ, number_append_letter hrest (by omega), hdigits]

/-- Capital letters have a number, and they are its name. -/
theorem exists_number_of_isUpper {w : List Char} (h : ∀ c ∈ w, c.isUpper = true) :
    ∃ n, number w = .ok n ∧ letters n = w := by
  induction w using List.reverseRecOn with
  | nil => exact ⟨0, number_nil, letters_zero⟩
  | append_singleton w c ih =>
      obtain ⟨n, hn, rfl⟩ := ih fun d hd => h d (by simp [hd])
      obtain ⟨value, hvalue⟩ := isUpper_iff.mp (h c (by simp))
      obtain ⟨m, hm, rfl, -⟩ := letterValue?_eq_some_iff.mp hvalue
      refine ⟨n * 26 + m + 1, number_append_letter hn hm, ?_⟩
      have hhigh : (n * 26 + m) / 26 = n := by omega
      have hlow : (n * 26 + m) % 26 = m := by omega
      rw [letters_succ, hhigh, hlow]

theorem isUpper_of_mem_letters {n : Nat} {c : Char} (hc : c ∈ letters n) :
    c.isUpper = true := by
  induction n using Nat.strongRecOn with
  | _ n ih =>
      cases n with
      | zero => simp at hc
      | succ n =>
          rw [letters_succ, List.mem_append, List.mem_singleton] at hc
          rcases hc with hc | rfl
          · exact ih (n / 26) (by omega) hc
          · exact isUpper_iff.mpr
              ⟨_, letterValue?_eq_some_iff.mpr ⟨n % 26, by omega, rfl, rfl⟩⟩

/-! ### Lengths -/

theorem length_letters_pos {n : Nat} (hn : 1 ≤ n) : 1 ≤ (letters n).length := by
  obtain ⟨m, rfl⟩ := Nat.exists_eq_add_of_le' hn
  simp [letters_succ]

/-- One letter more reaches 26 times as far. -/
theorem length_letters_le_succ {k bound : Nat}
    (h : ∀ m ≤ bound, (letters m).length ≤ k) :
    ∀ n ≤ 26 * bound + 26, (letters n).length ≤ k + 1 := by
  intro n hn
  cases n with
  | zero => simp
  | succ n =>
      have hrest := h (n / 26) (by omega)
      simpa [letters_succ] using hrest

/-- Three letters reach past the last column of a sheet. -/
theorem length_letters_le_three {n : Nat} (hn : n ≤ 18278) :
    (letters n).length ≤ 3 := by
  have hzero : ∀ m ≤ 0, (letters m).length ≤ 0 := by
    intro m hm
    simp [Nat.le_zero.mp hm]
  exact length_letters_le_succ
    (length_letters_le_succ (length_letters_le_succ hzero)) n hn

/-! ### The order of names -/

/-- Different columns have different names, since each name has its number. -/
theorem letters_injective : Function.Injective letters := by
  intro m n h
  have hnumber : number (letters m) = number (letters n) := congrArg number h
  rw [number_letters, number_letters] at hnumber
  exact Except.ok.inj hnumber

theorem letter_lt_iff {m n : Nat} (hm : m < 26) (hn : n < 26) :
    letter m < letter n ↔ m < n := by
  have hall : ∀ m < 26, ∀ n < 26, letter m < letter n ↔ m < n := by decide
  exact hall m hm n hn

/-- Of two lists of one length, the last entries count only where all the others
agree. -/
theorem lex_append_singleton_iff {α : Type} {r : α → α → Prop} {u v : List α} {a b : α}
    (h : u.length = v.length) :
    List.Lex r (u ++ [a]) (v ++ [b]) ↔ List.Lex r u v ∨ u = v ∧ r a b := by
  induction u generalizing v with
  | nil =>
      obtain rfl : v = [] := List.length_eq_zero_iff.mp h.symm
      simp
  | cons x u ih =>
      cases v with
      | nil => simp at h
      | cons y v =>
          rw [List.cons_append, List.cons_append, List.cons_lex_cons_iff,
            List.cons_lex_cons_iff, ih (Nat.succ.inj h), List.cons.injEq]
          tauto

/-- In the order by length and then by letters, the last letter decides last. -/
theorem shortlex_append_singleton_iff {α : Type} {r : α → α → Prop}
    {u v : List α} {a b : α} :
    List.Shortlex r (u ++ [a]) (v ++ [b]) ↔ List.Shortlex r u v ∨ u = v ∧ r a b := by
  rcases Nat.lt_trichotomy u.length v.length with hlt | heq | hgt
  · simp [List.shortlex_def, hlt]
  · simp [List.shortlex_def, heq, lex_append_singleton_iff heq]
  · have hne : u ≠ v := fun h => absurd (congrArg List.length h) (by omega)
    simp [List.shortlex_def, hne, Nat.lt_asymm hgt, Nat.ne_of_gt hgt]

/-- Names stand in the order of their numbers. -/
theorem shortlex_letters_iff (m n : Nat) :
    List.Shortlex (· < ·) (letters m) (letters n) ↔ m < n := by
  induction n using Nat.strongRecOn generalizing m with
  | _ n ih =>
      cases n with
      | zero => simp
      | succ n =>
          cases m with
          | zero =>
              have hlength : 0 < (letters (n + 1)).length :=
                length_letters_pos (by omega)
              rw [letters_zero]
              exact iff_of_true (.of_length_lt hlength) (Nat.succ_pos n)
          | succ m =>
              -- Either the rests of the names differ, or the rests are one name and
              -- the last letters decide.
              have hrest := ih (n / 26) (by omega) (m / 26)
              have hlast := letter_lt_iff (m := m % 26) (n := n % 26)
                (by omega) (by omega)
              rw [letters_succ, letters_succ,
                shortlex_append_singleton_iff, hrest, hlast, letters_injective.eq_iff]
              omega

/-! ### Numerals -/

/-- One or more letters from `A` to `Z`. -/
def IsName (w : String) : Prop :=
  w ≠ "" ∧ ∀ c ∈ w.toList, 'A' ≤ c ∧ c ≤ 'Z'

theorem IsName.exists_number {w : String} (h : IsName w) :
    ∃ n, 1 ≤ n ∧ number w.toList = .ok n ∧ letters n = w.toList := by
  obtain ⟨n, hn, hw⟩ :=
    exists_number_of_isUpper fun c hc => isUpper_iff_range.mpr (h.2 c hc)
  refine ⟨n, ?_, hn, hw⟩
  rcases Nat.eq_zero_or_pos n with rfl | hpos
  · rw [letters_zero] at hw
    exact absurd (String.toList_eq_nil_iff.mp hw.symm) h.1
  · exact hpos

/-- A column from the first on is named by capitals. -/
theorem isName_letters {n : Nat} (hn : 1 ≤ n) : IsName (String.ofList (letters n)) := by
  constructor
  · have hlength := length_letters_pos hn
    intro h
    simp [String.ofList_eq_empty_iff.mp h] at hlength
  · intro c hc
    rw [String.toList_ofList] at hc
    exact isUpper_iff_range.mp (isUpper_of_mem_letters hc)

theorem name_of_pos {n : Nat} (hn : 1 ≤ n) :
    name n = .ok (String.ofList (letters n)) := by
  have hnot : ¬ (n : Int) < 1 := by omega
  rw [name, if_neg hnot, Int.toNat_natCast]

/-- **Column names are the numerals of a system without a zero.**  Every positive
number has a name, every name has a positive number, each is found again from the
other, and names come in the order of their numbers: the shorter first, and those of
one length as in a dictionary. -/
theorem names_are_numerals :
    (∀ n : Int, 1 ≤ n → ∃ w, name n = .ok w ∧ IsName w ∧
      number w.toList = .ok n.toNat) ∧
      (∀ w, IsName w → ∃ n : Nat, 1 ≤ n ∧ number w.toList = .ok n ∧ name n = .ok w) ∧
      ∀ v w, IsName v → IsName w → ∃ m n,
        number v.toList = .ok m ∧ number w.toList = .ok n ∧
          (m < n ↔ v.length < w.length ∨ v.length = w.length ∧
            List.Lex (· < ·) v.toList w.toList) := by
  refine ⟨?_, ?_, ?_⟩
  · intro n hn
    obtain ⟨m, rfl⟩ := Int.eq_ofNat_of_zero_le (by omega : 0 ≤ n)
    have hm : 1 ≤ m := by omega
    refine ⟨_, name_of_pos hm, isName_letters hm, ?_⟩
    rw [String.toList_ofList, number_letters, Int.toNat_natCast]
  · intro w hw
    obtain ⟨n, hpos, hnumber, hletters⟩ := hw.exists_number
    refine ⟨n, hpos, hnumber, ?_⟩
    rw [name_of_pos hpos, hletters, String.ofList_toList]
  · intro v w hv hw
    obtain ⟨m, -, hm, hv⟩ := hv.exists_number
    obtain ⟨n, -, hn, hw⟩ := hw.exists_number
    refine ⟨m, n, hm, hn, ?_⟩
    rw [← shortlex_letters_iff, List.shortlex_def, hv, hw, String.length_toList,
      String.length_toList]

/-- The last name of two letters and the first of three, where every letter
carries. -/
theorem names_are_numerals_carry :
    IsName "ZZ" ∧ IsName "AAA" ∧ name 702 = .ok "ZZ" ∧ name 703 = .ok "AAA" ∧
      (∃ w, name 703 = .ok w ∧ IsName w ∧ number w.toList = .ok 703) ∧
      ∃ m n, number "ZZ".toList = .ok m ∧ number "AAA".toList = .ok n ∧ m < n := by
  have hzz : IsName "ZZ" := ⟨by decide, by simp⟩
  have haaa : IsName "AAA" := ⟨by decide, by simp⟩
  obtain ⟨hnumbers, hnames, horder⟩ := names_are_numerals
  have hname : ∀ {w : String} {n : Nat}, IsName w → number w.toList = .ok n →
      name n = .ok w := by
    intro w n hw hn
    obtain ⟨m, -, hm, hname⟩ := hnames w hw
    obtain rfl : m = n := Except.ok.inj (hm.symm.trans hn)
    exact hname
  obtain ⟨m, n, hm, hn, hlt⟩ := horder "ZZ" "AAA" hzz haaa
  exact ⟨hzz, haaa, hname hzz rfl, hname haaa rfl, hnumbers 703 (by decide),
    m, n, hm, hn, hlt.mpr (.inl (by decide))⟩

end Formulary.Column
