import Formulary.Cell.Reference
import Formulary.Proofs.ColumnNames
import Mathlib.Data.List.TakeWhile

/-!
# Addresses of cells

Every cell of the sheet has exactly one address, and reading tells of every other
text what is wrong with it.

* `Spelling.WellFormed` is the grammar of addresses, and `spelling?_eq_some_iff` says
  that the check of the spelling decides it.
* `parse_of_wellFormed` leaves the check of the bounds, column first.
* `address_codec` puts reading and writing together.
-/

namespace Formulary

/-! ### Row numbers -/

namespace Text

theorem digitsValue_eq_ofDigitChars (cs : List Char) :
    digitsValue cs = Nat.ofDigitChars 10 cs 0 := by
  rw [digitsValue, Nat.ofDigitChars]
  congr 1
  funext n c
  rw [Nat.mul_comm]

theorem digitsValue_toDigits (n : Nat) : digitsValue (Nat.toDigits 10 n) = n := by
  rw [digitsValue_eq_ofDigitChars, Nat.ofDigitChars_toDigits (by decide) (by decide)]

theorem isDigit_iff_range {c : Char} : c.isDigit = true ↔ '0' ≤ c ∧ c ≤ '9' := by
  change (decide _ && decide _) = true ↔ _
  rw [Bool.and_eq_true, decide_eq_true_iff, decide_eq_true_iff]
  rfl

/-- The digits are the characters of the numbers below ten. -/
theorem isDigit_iff {c : Char} :
    c.isDigit = true ↔ ∃ n, n < 10 ∧ c = Nat.digitChar n := by
  rw [isDigit_iff_range]
  constructor
  · rintro ⟨hlow, hhigh⟩
    have hlow : 48 ≤ c.toNat := hlow
    have hhigh : c.toNat ≤ 57 := hhigh
    refine ⟨c.toNat - 48, by omega, ?_⟩
    apply Char.toNat_inj.mp
    rw [Nat.toNat_digitChar_of_lt_ten (by omega)]
    omega
  · rintro ⟨n, hn, rfl⟩
    have hall : ∀ n < 10, '0' ≤ Nat.digitChar n ∧ Nat.digitChar n ≤ '9' := by decide
    exact hall n hn

/-- A digit in front is read first: what was read before it moves up a place. -/
theorem ofDigitChars_cons_digitChar {d : Nat} (hd : d < 10) (cs : List Char) (n : Nat) :
    Nat.ofDigitChars 10 (Nat.digitChar d :: cs) n =
      Nat.ofDigitChars 10 cs (10 * n + d) := by
  have hvalue : (Nat.digitChar d).toNat - '0'.toNat = d := by
    rw [Nat.toNat_digitChar_of_lt_ten hd]
    exact Nat.add_sub_cancel_left 48 d
  rw [Nat.ofDigitChars, Nat.ofDigitChars, List.foldl_cons, hvalue]

/-- Digits that go on from a positive number write the number that their value goes
on to. -/
theorem toDigits_append {cs : List Char} (h : ∀ c ∈ cs, c.isDigit = true)
    {n : Nat} (hn : 0 < n) :
    Nat.toDigits 10 n ++ cs = Nat.toDigits 10 (Nat.ofDigitChars 10 cs n) := by
  induction cs generalizing n with
  | nil => simp [Nat.ofDigitChars]
  | cons c cs ih =>
      obtain ⟨d, hd, rfl⟩ := isDigit_iff.mp (h c (by simp))
      have hfirst : Nat.toDigits 10 n ++ [Nat.digitChar d] =
          Nat.toDigits 10 (10 * n + d) := by
        rw [← Nat.toDigits_append_toDigits (by decide) hn hd,
          Nat.toDigits_of_lt_base hd]
      calc Nat.toDigits 10 n ++ Nat.digitChar d :: cs
          = (Nat.toDigits 10 n ++ [Nat.digitChar d]) ++ cs := by simp
        _ = Nat.toDigits 10 (10 * n + d) ++ cs := by rw [hfirst]
        _ = Nat.toDigits 10 (Nat.ofDigitChars 10 cs (10 * n + d)) :=
            ih (fun c hc => h c (by simp [hc])) (by omega)
        _ = Nat.toDigits 10 (Nat.ofDigitChars 10 (Nat.digitChar d :: cs) n) := by
            rw [ofDigitChars_cons_digitChar hd]

/-- Digits without a leading zero are how their value is written. -/
theorem toDigits_digitsValue {cs : List Char} (hne : cs ≠ [])
    (h : ∀ c ∈ cs, c.isDigit = true) (hzero : cs.head? ≠ some '0') :
    Nat.toDigits 10 (digitsValue cs) = cs := by
  cases cs with
  | nil => exact absurd rfl hne
  | cons c cs =>
      obtain ⟨d, hd, rfl⟩ := isDigit_iff.mp (h c (by simp))
      have hpos : 0 < d := by
        rcases Nat.eq_zero_or_pos d with rfl | hpos
        · exact absurd rfl hzero
        · exact hpos
      have htail : ∀ c ∈ cs, c.isDigit = true := fun c hc => h c (by simp [hc])
      rw [digitsValue_eq_ofDigitChars, ofDigitChars_cons_digitChar hd,
        Nat.mul_zero, Nat.zero_add, ← toDigits_append htail hpos,
        Nat.toDigits_of_lt_base hd]
      rfl

/-- The digits of a positive number do not start with zero. -/
theorem head?_toDigits_ne_zero {n : Nat} (hn : 0 < n) :
    (Nat.toDigits 10 n).head? ≠ some '0' := by
  induction n using Nat.strongRecOn with
  | _ n ih =>
      by_cases hlt : n < 10
      · have hall : ∀ n < 10, 0 < n → Nat.digitChar n ≠ '0' := by decide
        rw [Nat.toDigits_of_lt_base hlt]
        simpa using hall n hlt hn
      · have hrest := ih (n / 10) (by omega) (by omega)
        rw [Nat.toDigits_of_base_le (by decide) (by omega),
          List.head?_append_of_ne_nil _ Nat.toDigits_ne_nil]
        exact hrest

end Text

namespace CellReference

/-! ### Spellings -/

namespace Spelling

/-- The text with the given parts. -/
def chars (s : Spelling) : List Char :=
  anchorSign s.colAbsolute ++ s.letters ++ anchorSign s.rowAbsolute ++ s.digits

/-- One to three letters from `A` to `Z`, and one to seven digits from `0` to `9` of
which the first is not zero. -/
structure WellFormed (s : Spelling) : Prop where
  letters_length : 1 ≤ s.letters.length ∧ s.letters.length ≤ 3
  letters_upper : ∀ c ∈ s.letters, 'A' ≤ c ∧ c ≤ 'Z'
  digits_length : 1 ≤ s.digits.length ∧ s.digits.length ≤ 7
  digits_ascii : ∀ c ∈ s.digits, '0' ≤ c ∧ c ≤ '9'
  no_leading_zero : s.digits.head? ≠ some '0'

end Spelling

/-- An anchor is taken where there is one, so that what is left has none unless one
was taken. -/
theorem takeAnchor_eq_iff {cs rest : List Char} {absolute : Bool} :
    takeAnchor cs = (absolute, rest) ↔
      cs = anchorSign absolute ++ rest ∧
        (absolute = false → rest.head? ≠ some '$') := by
  constructor
  · intro h
    unfold takeAnchor at h
    split at h
    · obtain ⟨rfl, rfl⟩ := Prod.mk.inj h
      exact ⟨rfl, by simp⟩
    · next hsign =>
      obtain ⟨rfl, rfl⟩ := Prod.mk.inj h
      refine ⟨rfl, fun _ hhead => ?_⟩
      obtain ⟨tail, rfl⟩ := List.head?_eq_some_iff.mp hhead
      exact hsign tail rfl
  · rintro ⟨rfl, hhead⟩
    cases absolute with
    | true => rfl
    | false =>
        have hhead := hhead rfl
        unfold takeAnchor
        split
        · next tail heq =>
          rw [anchorSign, if_neg (by simp), List.nil_append] at heq
          exact absurd (by rw [heq]; rfl) hhead
        · rfl

/-- A row is one to seven digits without a leading zero. -/
theorem isRowSpelling_iff {cs : List Char} :
    isRowSpelling cs = true ↔
      (1 ≤ cs.length ∧ cs.length ≤ 7) ∧ (∀ c ∈ cs, '0' ≤ c ∧ c ≤ '9') ∧
        cs.head? ≠ some '0' := by
  simp only [isRowSpelling, Bool.and_eq_true, List.all_eq_true, Text.isDigit_iff_range,
    decide_eq_true_eq]
  constructor
  · rintro ⟨⟨⟨hdigits, hpos⟩, hle⟩, hzero⟩
    exact ⟨⟨hpos, hle⟩, hdigits, hzero⟩
  · rintro ⟨⟨hpos, hle⟩, hdigits, hzero⟩
    exact ⟨⟨⟨hdigits, hpos⟩, hle⟩, hzero⟩

/-- The letters of a well-formed spelling are capitals. -/
theorem Spelling.WellFormed.letters_isUpper {s : Spelling} (h : s.WellFormed) :
    ∀ c ∈ s.letters, c.isUpper = true := by
  intro c hc
  exact Column.isUpper_iff_range.mpr (h.letters_upper c hc)

/-- What comes after the letters is no capital letter. -/
theorem Spelling.WellFormed.takeWhile_row {s : Spelling} (h : s.WellFormed) :
    (anchorSign s.rowAbsolute ++ s.digits).takeWhile Char.isUpper = [] := by
  cases hrow : s.rowAbsolute with
  | true => rfl
  | false =>
      cases hdigits : s.digits with
      | nil => rfl
      | cons c cs =>
          obtain ⟨d, hd, rfl⟩ := Text.isDigit_iff.mp
            (Text.isDigit_iff_range.mpr (h.digits_ascii c (by simp [hdigits])))
          have hall : ∀ d < 10, (Nat.digitChar d).isUpper = false := by decide
          simp [anchorSign, hall d hd]

/-- **The check of the spelling decides the grammar**: it finds the parts of a text
that has them. -/
theorem spelling?_eq_some_iff {cs : List Char} {s : Spelling} :
    spelling? cs = some s ↔ s.WellFormed ∧ s.chars = cs := by
  constructor
  · intro h
    obtain ⟨colAbsolute, afterSign, hcol⟩ : ∃ b r, takeAnchor cs = (b, r) := ⟨_, _, rfl⟩
    obtain ⟨rowAbsolute, digits, hrow⟩ :
        ∃ b r, takeAnchor (afterSign.dropWhile Char.isUpper) = (b, r) := ⟨_, _, rfl⟩
    simp only [spelling?, hcol, hrow, Option.ite_none_right_eq_some,
      Option.some.injEq] at h
    obtain ⟨⟨hpos, hle, hdigits⟩, rfl⟩ := h
    obtain ⟨hlength, hascii, hzero⟩ := isRowSpelling_iff.mp hdigits
    refine ⟨⟨⟨hpos, hle⟩, ?_, hlength, hascii, hzero⟩, ?_⟩
    · intro c hc
      exact Column.isUpper_iff_range.mp (List.mem_takeWhile_imp hc)
    · rw [(takeAnchor_eq_iff.mp hcol).1]
      change anchorSign colAbsolute ++ _ ++ anchorSign rowAbsolute ++ digits = _
      rw [List.append_assoc, List.append_assoc, ← (takeAnchor_eq_iff.mp hrow).1,
        List.takeWhile_append_dropWhile]
  · rintro ⟨hs, rfl⟩
    have hcol : takeAnchor s.chars =
        (s.colAbsolute, s.letters ++ (anchorSign s.rowAbsolute ++ s.digits)) := by
      refine takeAnchor_eq_iff.mpr ⟨by simp [Spelling.chars], fun _ hhead => ?_⟩
      obtain ⟨c, cs, hletters⟩ :=
        List.exists_cons_of_ne_nil (List.ne_nil_of_length_pos hs.letters_length.1)
      obtain rfl : c = '$' := by simpa [hletters] using hhead
      exact absurd (hs.letters_upper '$' (by simp [hletters])) (by decide)
    have hrow : takeAnchor (anchorSign s.rowAbsolute ++ s.digits) =
        (s.rowAbsolute, s.digits) := by
      refine takeAnchor_eq_iff.mpr ⟨rfl, fun _ hhead => ?_⟩
      obtain ⟨tail, hdigits⟩ := List.head?_eq_some_iff.mp hhead
      exact absurd (hs.digits_ascii '$' (by simp [hdigits])) (by decide)
    have htake :
        (s.letters ++ (anchorSign s.rowAbsolute ++ s.digits)).takeWhile Char.isUpper =
          s.letters := by
      rw [List.takeWhile_append_of_pos hs.letters_isUpper,
        hs.takeWhile_row, List.append_nil]
    have hdrop :
        (s.letters ++ (anchorSign s.rowAbsolute ++ s.digits)).dropWhile Char.isUpper =
          anchorSign s.rowAbsolute ++ s.digits := by
      have hsplit := List.takeWhile_append_dropWhile
        (p := Char.isUpper) (l := s.letters ++ (anchorSign s.rowAbsolute ++ s.digits))
      rw [htake] at hsplit
      exact List.append_cancel_left hsplit
    have hdigits : isRowSpelling s.digits = true :=
      isRowSpelling_iff.mpr ⟨hs.digits_length, hs.digits_ascii, hs.no_leading_zero⟩
    simp only [spelling?, hcol, htake, hdrop, hrow]
    rw [if_pos ⟨hs.letters_length.1, hs.letters_length.2, hdigits⟩]

/-! ### Reading and writing -/

/-- The parts of the address of a cell. -/
def parts (cell : CellReference) : Spelling :=
  ⟨cell.colAbsolute, Column.letters cell.col, cell.rowAbsolute,
    Nat.toDigits 10 cell.row⟩

theorem chars_parts (cell : CellReference) : cell.parts.chars = cell.format.toList := by
  rw [format, String.toList_ofList]
  rfl

/-- The parts of a reference are spelled as they should be, because the numbers are
within bounds. -/
theorem parts_wellFormed (cell : CellReference) : cell.parts.WellFormed where
  letters_length := by
    have hcol : cell.col ≤ 16384 := cell.col_bounds.2
    exact ⟨Column.length_letters_pos cell.col_bounds.1,
      Column.length_letters_le_three (by omega)⟩
  letters_upper := fun _ hc =>
    Column.isUpper_iff_range.mp (Column.isUpper_of_mem_letters hc)
  digits_length := by
    have hrow : cell.row ≤ 1048576 := cell.row_bounds.2
    refine ⟨Nat.length_toDigits_pos, ?_⟩
    exact (Nat.length_toDigits_le_iff (by decide) (by decide)).mpr (by omega)
  digits_ascii := fun _ hc =>
    Text.isDigit_iff_range.mp (Nat.isDigit_of_mem_toDigits (by decide) (by decide) hc)
  no_leading_zero := Text.head?_toDigits_ne_zero cell.row_bounds.1

/-- Reading a text that is spelled right comes down to the bounds of its column and
its row. -/
theorem parse_of_wellFormed {address : String} {s : Spelling} (hs : s.WellFormed)
    (hchars : s.chars = address.toList) :
    ∃ col, Column.number s.letters = .ok col ∧ Column.letters col = s.letters ∧
      parse address = ofNumbers s col (Text.digitsValue s.digits) := by
  obtain ⟨col, hnumber, hletters⟩ := Column.exists_number_of_isUpper hs.letters_isUpper
  refine ⟨col, hnumber, hletters, ?_⟩
  rw [parse, spelling?_eq_some_iff.mpr ⟨hs, hchars⟩]
  change (Column.number s.letters >>= fun col =>
    ofNumbers s col (Text.digitsValue s.digits)) = _
  rw [hnumber]
  rfl

/-- A column past the end is reported before the row is looked at. -/
theorem ofNumbers_of_col {s : Spelling} {col : Nat} (h : maxColumn < col) (row : Nat) :
    ofNumbers s col row = .error (.columnPastEnd (String.ofList s.letters) col) := by
  rw [ofNumbers, dif_neg (by omega)]

/-- A row past the end is reported if the column is within bounds. -/
theorem ofNumbers_of_row {s : Spelling} {col row : Nat}
    (hcol : 1 ≤ col ∧ col ≤ maxColumn) (h : maxRow < row) :
    ofNumbers s col row = .error (.rowPastEnd row) := by
  rw [ofNumbers, dif_pos hcol, dif_neg (by omega)]

theorem ofNumbers_eq_ok_iff {s : Spelling} {col row : Nat} {cell : CellReference} :
    ofNumbers s col row = .ok cell ↔
      cell.row = row ∧ cell.col = col ∧ cell.rowAbsolute = s.rowAbsolute ∧
        cell.colAbsolute = s.colAbsolute := by
  constructor
  · intro h
    unfold ofNumbers at h
    split_ifs at h
    obtain rfl := Except.ok.inj h
    exact ⟨rfl, rfl, rfl, rfl⟩
  · rintro ⟨rfl, rfl, hrow, hcol⟩
    rw [ofNumbers, dif_pos cell.col_bounds, dif_pos cell.row_bounds, ← hrow, ← hcol]

/-- Numbers of spellings that are right are positive. -/
theorem Spelling.WellFormed.row_pos {s : Spelling} (hs : s.WellFormed) :
    1 ≤ Text.digitsValue s.digits := by
  have hne : s.digits ≠ [] := List.ne_nil_of_length_pos hs.digits_length.1
  have hwritten := Text.toDigits_digitsValue hne
    (fun c hc => Text.isDigit_iff_range.mpr (hs.digits_ascii c hc)) hs.no_leading_zero
  by_contra hzero
  rw [Nat.lt_one_iff.mp (Nat.not_le.mp hzero)] at hwritten
  exact hs.no_leading_zero (by rw [← hwritten]; rfl)

/-- **A reference is read back from its text.** -/
theorem parse_format (cell : CellReference) : parse cell.format = .ok cell := by
  obtain ⟨col, hnumber, -, hparse⟩ :=
    parse_of_wellFormed cell.parts_wellFormed cell.chars_parts
  have hcol : col = cell.col := by
    rw [parts, Column.number_letters] at hnumber
    exact (Except.ok.inj hnumber).symm
  rw [hparse, ofNumbers_eq_ok_iff]
  exact ⟨(Text.digitsValue_toDigits cell.row).symm, hcol.symm, rfl, rfl⟩

/-- A text that is not spelled like an address is refused for its spelling. -/
theorem parse_of_not_wellFormed {address : String}
    (h : ¬ ∃ s : Spelling, s.WellFormed ∧ s.chars = address.toList) :
    parse address = .error (.badSyntax address) := by
  have hnone : spelling? address.toList = none := by
    rw [Option.eq_none_iff_forall_ne_some]
    intro s hs
    exact h ⟨s, spelling?_eq_some_iff.mp hs⟩
  rw [parse, hnone]

/-- **The text of a reference that was read is the one that it was read from.** -/
theorem format_of_parse {address : String} {cell : CellReference}
    (h : parse address = .ok cell) : cell.format = address := by
  by_cases hspelled : ∃ s : Spelling, s.WellFormed ∧ s.chars = address.toList
  · obtain ⟨s, hs, hchars⟩ := hspelled
    obtain ⟨col, -, hletters, hparse⟩ := parse_of_wellFormed hs hchars
    rw [hparse, ofNumbers_eq_ok_iff] at h
    obtain ⟨hrow, hcol, hrowAbsolute, hcolAbsolute⟩ := h
    have hdigits : Nat.toDigits 10 cell.row = s.digits := by
      rw [hrow]
      exact Text.toDigits_digitsValue (List.ne_nil_of_length_pos hs.digits_length.1)
        (fun c hc => Text.isDigit_iff_range.mpr (hs.digits_ascii c hc))
          hs.no_leading_zero
    have hparts : cell.parts = s := by
      rw [parts, hcolAbsolute, hrowAbsolute, hcol, hletters, hdigits]
    rw [← String.toList_inj, ← cell.chars_parts, hparts, hchars]
  · rw [parse_of_not_wellFormed hspelled] at h
    cases h

/-- A text is valid exactly if it is read as a reference. -/
theorem isValid_iff {address : String} :
    isValid address = true ↔ ∃ cell, parse address = .ok cell := by
  cases h : parse address with
  | ok cell => simp [isValid, h]
  | error e => simp [isValid, h]

/-- **Addresses and cells determine each other.**  What is no address is refused for
its spelling, or else for its column, or else for its row. -/
theorem address_codec :
    (∀ cell : CellReference, parse cell.format = .ok cell) ∧
      (∀ (address : String) (cell : CellReference),
        parse address = .ok cell → cell.format = address) ∧
      (∀ address : String, isValid address = true ↔
        ∃ cell : CellReference, cell.format = address) ∧
      ∀ address : String, isValid address = false →
        ((¬ ∃ s : Spelling, s.WellFormed ∧ s.chars = address.toList) →
          parse address = .error (.badSyntax address)) ∧
        ∀ s : Spelling, s.WellFormed → s.chars = address.toList →
          ∃ col, Column.number s.letters = .ok col ∧
            (maxColumn < col →
              parse address = .error (.columnPastEnd (String.ofList s.letters) col)) ∧
            (col ≤ maxColumn → maxRow < Text.digitsValue s.digits ∧
              parse address = .error (.rowPastEnd (Text.digitsValue s.digits))) := by
  refine ⟨parse_format, fun _ _ => format_of_parse, fun address => ?_,
    fun address hinvalid => ?_⟩
  · rw [isValid_iff]
    constructor
    · rintro ⟨cell, hcell⟩
      exact ⟨cell, format_of_parse hcell⟩
    · rintro ⟨cell, rfl⟩
      exact ⟨cell, parse_format cell⟩
  · refine ⟨parse_of_not_wellFormed, fun s hs hchars => ?_⟩
    obtain ⟨col, hnumber, hletters, hparse⟩ := parse_of_wellFormed hs hchars
    have hpos : 1 ≤ col := by
      rcases Nat.eq_zero_or_pos col with rfl | hpos
      · have hlength := hs.letters_length.1
        simp [← hletters] at hlength
      · exact hpos
    refine ⟨col, hnumber, fun hcol => ?_, fun hcol => ?_⟩
    · rw [hparse, ofNumbers_of_col hcol]
    · have hrow : maxRow < Text.digitsValue s.digits := by
        -- Within both bounds there would be a cell.
        by_contra hle
        have hok : ofNumbers s col (Text.digitsValue s.digits) =
            .ok ⟨_, _, s.rowAbsolute, s.colAbsolute, ⟨hs.row_pos, Nat.not_lt.mp hle⟩,
              ⟨hpos, hcol⟩⟩ :=
          ofNumbers_eq_ok_iff.mpr ⟨rfl, rfl, rfl, rfl⟩
        have hvalid : isValid address = true := isValid_iff.mpr ⟨_, hparse.trans hok⟩
        rw [hvalid] at hinvalid
        exact Bool.noConfusion hinvalid
      exact ⟨hrow, by rw [hparse, ofNumbers_of_row ⟨hpos, hcol⟩ hrow]⟩

end CellReference

end Formulary
