import Mathlib.Data.List.TakeWhile
import Formulary.Template.Fill

/-!
# Templates with plain fields

The fields of most templates are bare numbers, such as `{0}`.  `Template.Plain`
describes these templates by a grammar of their own, and filling one in needs nothing
else than the arguments that its fields name (`fill_of_plain`): it fails only where
one of them is missing.
-/

namespace Formulary.Template

/-- A part of a template: a character that stands for itself or the place of an
argument. -/
inductive Part where
  | literal (c : Char)
  | argument (number : Nat)
  deriving DecidableEq, Repr

/-- A template whose only braces are those of fields that are bare numbers, and its
parts. -/
inductive Plain : List Char → List Part → Prop
  | nil : Plain [] []
  | literal {c : Char} {text : List Char} {ps : List Part}
      (hopen : c ≠ '{') (hclose : c ≠ '}')
      (htext : Plain text ps) : Plain (c :: text) (.literal c :: ps)
  | field {digits text : List Char} {n : Nat} {ps : List Part}
      (hn : Text.decimalNumber? digits = some n) (hmax : n ≤ maxTemplateNumber)
      (htext : Plain text ps) :
        Plain ('{' :: (digits ++ '}' :: text)) (.argument n :: ps)

/-- The numbers of the arguments that parts need. -/
def partNumbers : List Part → List Nat
  | [] => []
  | .literal _ :: ps => partNumbers ps
  | .argument n :: ps => n :: partNumbers ps

/-- Parts with the arguments in their places. -/
def fillParts (args : List (List Char)) : List Part → Except TemplateError (List Char)
  | [] => .ok []
  | .literal c :: ps => (fillParts args ps).map (c :: ·)
  | .argument n :: ps =>
    match args[n]? with
    | none => .error .missingArgument
    | some arg => (fillParts args ps).map (arg ++ ·)

/-- Parts can be filled in if the arguments that they need are there. -/
theorem exists_fillParts_eq_ok {args : List (List Char)} {ps : List Part}
    (h : ∀ n ∈ partNumbers ps, n < args.length) :
    ∃ text, fillParts args ps = .ok text := by
  induction ps with
  | nil => exact ⟨[], rfl⟩
  | cons p ps ih =>
      cases p with
      | literal c =>
          obtain ⟨text, htext⟩ := ih h
          exact ⟨c :: text, by rw [fillParts, htext]; rfl⟩
      | argument n =>
          obtain ⟨hn, hps⟩ := List.forall_mem_cons.mp h
          obtain ⟨text, htext⟩ := ih hps
          exact ⟨args[n] ++ text, by
            rw [fillParts, List.getElem?_eq_getElem hn, htext]; rfl⟩

/-- If an argument that parts need is missing, they cannot be filled in for that
reason. -/
theorem fillParts_eq_error {args : List (List Char)} {ps : List Part} {n : Nat}
    (hn : n ∈ partNumbers ps) (hmissing : args.length ≤ n) :
    fillParts args ps = .error .missingArgument := by
  induction ps with
  | nil => simp [partNumbers] at hn
  | cons p ps ih =>
      cases p with
      | literal c => rw [fillParts, ih hn]; rfl
      | argument m =>
          rcases List.mem_cons.mp hn with rfl | hn
          · rw [fillParts, List.getElem?_eq_none hmissing]
          · rw [fillParts, ih hn]
            cases args[m]? <;> rfl

/-! ### Numbers -/

/-- The number that decimal digits continue, starting from `n`. -/
def numberFrom? (n : Nat) : List Char → Option Nat
  | [] => some n
  | c :: rest => (Text.decimalValue? c).bind fun d => numberFrom? (n * 10 + d) rest

/-- Reading digits from the left is a recursion on what is left. -/
theorem foldlM_eq_numberFrom? (n : Nat) (cs : List Char) :
    cs.foldlM (fun n c => (Text.decimalValue? c).map (n * 10 + ·)) n =
      numberFrom? n cs := by
  induction cs generalizing n with
  | nil => rfl
  | cons c cs ih =>
      rw [List.foldlM_cons, numberFrom?]
      cases Text.decimalValue? c with
      | none => rfl
      | some d => exact ih _

theorem decimalNumber?_eq_some_iff {digits : List Char} {n : Nat} :
    Text.decimalNumber? digits = some n ↔
      digits ≠ [] ∧ numberFrom? 0 digits = some n := by
  rw [Text.decimalNumber?, foldlM_eq_numberFrom?]
  cases digits <;> simp

theorem numberFrom?_cons_eq_some {c : Char} {digits : List Char} {n m : Nat}
    (h : numberFrom? n (c :: digits) = some m) :
    ∃ d, Text.decimalValue? c = some d ∧ numberFrom? (n * 10 + d) digits = some m :=
  Option.bind_eq_some_iff.mp h

theorem le_of_numberFrom? {digits : List Char} {n m : Nat}
    (h : numberFrom? n digits = some m) :
    n ≤ m := by
  induction digits generalizing n with
  | nil => exact Nat.le_of_eq (Option.some.inj h)
  | cons c digits ih =>
      obtain ⟨d, -, hrest⟩ := numberFrom?_cons_eq_some h
      have hle : n * 10 + d ≤ m := ih hrest
      omega

theorem decimalValue?_of_mem_digits {digits : List Char} {n m : Nat}
    (h : numberFrom? n digits = some m) {c : Char} (hc : c ∈ digits) :
    (Text.decimalValue? c).isSome := by
  induction digits generalizing n with
  | nil => simp at hc
  | cons first digits ih =>
      obtain ⟨d, hd, hrest⟩ := numberFrom?_cons_eq_some h
      rcases List.mem_cons.mp hc with rfl | hc
      · simp [hd]
      · exact ih hrest hc

/-- Digits are read as their number, if the number is not too large. -/
theorem readNumberFrom_of_numberFrom? {digits : List Char} {n m : Nat} {read : Bool}
    (h : numberFrom? n digits = some m) (hmax : m ≤ maxTemplateNumber)
    (hread : read = true ∨ digits ≠ []) :
    readNumberFrom read n digits = .ok (some m, []) := by
  induction digits generalizing n read with
  | nil =>
      obtain rfl : n = m := Option.some.inj h
      simp_all [readNumberFrom]
  | cons c digits ih =>
      obtain ⟨d, hd, hrest⟩ := numberFrom?_cons_eq_some h
      have hle : n * 10 + d ≤ m := le_of_numberFrom? hrest
      -- No number on the way is larger than the one at the end.
      have hfits : ¬ (maxTemplateNumber - d) / 10 < n := by omega
      simp only [readNumberFrom, hd, hfits, if_false]
      exact ih hrest (.inl rfl)

theorem wholeNumber?_of_decimalNumber? {digits : List Char} {n : Nat}
    (h : Text.decimalNumber? digits = some n) (hmax : n ≤ maxTemplateNumber) :
    wholeNumber? digits = .ok (some n) := by
  obtain ⟨hne, hdigits⟩ := decimalNumber?_eq_some_iff.mp h
  rw [wholeNumber?, readNumber, readNumberFrom_of_numberFrom? hdigits hmax (.inr hne)]
  rfl

/-! ### Fields -/

theorem decimalValue?_of_mem {c : Char} (hc : c ∈ ['{', '}', '[', ':', '!', '.']) :
    Text.decimalValue? c = none := by
  have hall : ['{', '}', '[', ':', '!', '.'].all (Text.decimalValue? · = none) =
      true := by decide
  exact of_decide_eq_true (List.all_eq_true.mp hall c hc)

/-- No digit means something else in a field. -/
theorem ne_of_mem_digits {digits : List Char} {n : Nat}
    (h : Text.decimalNumber? digits = some n) {c : Char} (hc : c ∈ digits) {d : Char}
    (hd : d ∈ ['{', '}', '[', ':', '!', '.']) : c ≠ d := by
  rintro rfl
  have hsome := decimalValue?_of_mem_digits (decimalNumber?_eq_some_iff.mp h).2 hc
  simp [decimalValue?_of_mem hd] at hsome

/-- Characters without a meaning of their own in front of a brace are the name of a
field. -/
theorem readName_of_forall {name : List Char}
    (h : ∀ c ∈ name, ∀ d ∈ ['{', '}', '[', ':', '!', '.'], c ≠ d) (rest : List Char) :
    readName false (name ++ '}' :: rest) = .ok (name, '}', rest) := by
  induction name with
  | nil => rfl
  | cons c name ih =>
      obtain ⟨hc, hname⟩ := List.forall_mem_cons.mp h
      simp only [List.forall_mem_cons] at hc
      obtain ⟨h1, h2, h3, h4, h5, -⟩ := hc
      simp [readName, h1, h2, h3, h4, h5, ih hname, Except.map]

/-- A field with digits in it has a number, no conversion and no format. -/
theorem readField_digits {digits : List Char} {n : Nat}
    (h : Text.decimalNumber? digits = some n) (rest : List Char) :
    readField (digits ++ '}' :: rest) = .ok (⟨digits, none, []⟩, rest) := by
  rw [readField, readName_of_forall fun c hc d hd => ne_of_mem_digits h hc hd]
  rfl

/-- The value of a field that is a bare number is the argument with that number. -/
theorem fieldValue_digits (args : List (List Char)) {numbering : Numbering}
    (hnumbering : ∀ k, numbering ≠ .automatic k) {digits : List Char} {n : Nat}
    (h : Text.decimalNumber? digits = some n) (hmax : n ≤ maxTemplateNumber) :
    fieldValue args numbering digits =
      match args[n]? with
      | none => .error .missingArgument
      | some arg => .ok (arg, .manual) := by
  have hall : ∀ c ∈ digits, (decide (c ≠ '.') && decide (c ≠ '[')) = true := by
    intro c hc
    simp [ne_of_mem_digits h hc (d := '.') (by simp),
      ne_of_mem_digits h hc (d := '[') (by simp)]
  have hnumber : fieldNumber numbering digits = .ok (n, .manual) := by
    have hne : digits ≠ [] := (decimalNumber?_eq_some_iff.mp h).1
    rw [fieldNumber, wholeNumber?_of_decimalNumber? h hmax]
    cases digits with
    | nil => exact absurd rfl hne
    | cons c digits =>
        cases numbering with
        | automatic k => exact absurd rfl (hnumbering k)
        | undecided => rfl
        | manual => rfl
  rw [fieldValue, List.takeWhile_eq_self_iff.mpr hall,
    List.dropWhile_eq_nil_iff.mpr hall, hnumber]
  simp only [bind, Except.bind]
  cases args[n]? <;> rfl

/-! ### Templates -/

/-- The pieces of a plain template are filled in like its parts. -/
theorem exists_piecesFrom_of_plain {text : List Char}
    {ps : List Part} (h : Plain text ps) {fuel : Nat} (hfuel : text.length < fuel)
    (args : List (List Char))
    (layout : Numbering → List Char → Except TemplateError (List Char × Numbering)) :
    ∃ pieces, piecesFrom fuel text = (pieces, none) ∧
      ∀ numbering : Numbering, (∀ k, numbering ≠ .automatic k) →
        (fillPieces args layout numbering pieces).map Prod.fst = fillParts args ps := by
  induction h generalizing fuel with
  | nil =>
      obtain ⟨fuel, rfl⟩ := Nat.exists_eq_succ_of_ne_zero (Nat.ne_of_gt hfuel)
      exact ⟨[], rfl, fun _ _ => rfl⟩
  | @literal c text ps hopen hclose htext ih =>
      obtain ⟨fuel, rfl⟩ :=
        Nat.exists_eq_succ_of_ne_zero (Nat.ne_of_gt (Nat.zero_lt_of_lt hfuel))
      obtain ⟨pieces, hpieces, hfill⟩ := ih (Nat.lt_of_succ_lt_succ hfuel)
      refine ⟨.literal c :: pieces, ?_, fun numbering hnumbering => ?_⟩
      · simp [piecesFrom, hopen, hclose, hpieces]
      · rw [fillPieces, fillParts, ← hfill numbering hnumbering]
        cases fillPieces args layout numbering pieces <;> rfl
  | @field digits text n ps hn hmax htext ih =>
      obtain ⟨fuel, rfl⟩ :=
        Nat.exists_eq_succ_of_ne_zero (Nat.ne_of_gt (Nat.zero_lt_of_lt hfuel))
      have hlength : text.length < fuel := by
        simp only [List.length_cons, List.length_append] at hfuel
        omega
      obtain ⟨pieces, hpieces, hfill⟩ := ih hlength
      refine ⟨.field ⟨digits, none, []⟩ :: pieces, ?_, fun numbering hnumbering => ?_⟩
      · -- The first digit tells the field from a doubled brace.
        obtain ⟨d, digits, rfl⟩ :=
          List.exists_cons_of_ne_nil (decimalNumber?_eq_some_iff.mp hn).1
        have hfirst : d ≠ '{' := ne_of_mem_digits hn (List.mem_cons_self ..) (by simp)
        have hfield := readField_digits hn text
        rw [List.cons_append] at hfield ⊢
        simp [piecesFrom, hfirst, hfield, hpieces]
      · rw [fillPieces, fillParts, fieldValue_digits args hnumbering hn hmax]
        cases args[n]? with
        | none => rfl
        | some arg =>
            simp only [← hfill .manual (by simp)]
            cases h : fillPieces args layout .manual pieces <;>
              simp [bind, Except.bind, Except.map, convert, Padding.layOut,
                Except.mapError, h, pure, Except.pure]

/-- **Filling in a plain template** puts the arguments into its parts. -/
theorem fill_of_plain {text : List Char} {ps : List Part} (h : Plain text ps)
    (args : List (List Char)) : fill text args = fillParts args ps := by
  obtain ⟨found, hfound, hfill⟩ :=
    exists_piecesFrom_of_plain h (Nat.lt_succ_self _) args (fillNested args 1)
  rw [← hfill .undecided (by simp), fill, fillNested, pieces, hfound]
  simp only [bind, Except.bind]
  cases fillPieces args (fillNested args 1) .undecided found <;> rfl

/-! ### Recognising plain templates -/

/-- The parts of a plain template, behind an opening brace and the digits after it if
a field is open. -/
def partsFrom? (field : Option (List Char)) : List Char → Option (List Part)
  | [] => if field.isNone then some [] else none
  | c :: rest =>
    match field with
    | none =>
      if c = '{' then partsFrom? (some []) rest
      else if c = '}' then none
      else (partsFrom? none rest).map (.literal c :: ·)
    | some digits =>
      if c = '}' then
        ((Text.decimalNumber? digits).filter (· ≤ maxTemplateNumber)).bind fun n =>
          (partsFrom? none rest).map (.argument n :: ·)
      else partsFrom? (some (digits ++ [c])) rest

/-- The parts that are found in a template show that it is plain. -/
theorem plain_of_partsFrom? {field : Option (List Char)}
    {text : List Char} {ps : List Part} (h : partsFrom? field text = some ps) :
    Plain (field.elim [] ('{' :: ·) ++ text) ps := by
  induction text generalizing field ps with
  | nil =>
      cases field with
      | none => cases h; exact .nil
      | some digits => cases h
  | cons c rest ih =>
      cases field with
      | none =>
          simp only [partsFrom?] at h
          split_ifs at h with hopen hclose
          · subst hopen
            exact ih h
          · obtain ⟨qs, hqs, rfl⟩ := Option.map_eq_some_iff.mp h
            exact .literal hopen hclose (ih hqs)
      | some digits =>
          simp only [partsFrom?] at h
          split_ifs at h with hclose
          · obtain ⟨n, hn, h⟩ := Option.bind_eq_some_iff.mp h
            obtain ⟨qs, hqs, rfl⟩ := Option.map_eq_some_iff.mp h
            obtain ⟨hdigits, hmax⟩ := Option.filter_eq_some_iff.mp hn
            subst hclose
            exact .field hdigits (of_decide_eq_true hmax) (ih hqs)
          · simpa using ih h

end Formulary.Template
