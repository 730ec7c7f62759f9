/-!
# Ordered associations

Lists of named values in which every name keeps the place where it was first set.

## Main definitions

* `Assoc.lookup?` finds the value of a name.
* `Assoc.put` sets a name: a new name goes to the end, a known one keeps its place.
* `Assoc.putAll` sets names one after the other, and `Assoc.without` removes names.
-/

namespace Formulary.Assoc

variable {α : Type}

/-- The value of a name. -/
def lookup? (name : String) : List (String × α) → Option α
  | [] => none
  | (key, value) :: rest => if key = name then some value else lookup? name rest

/-- Sets the value of a name: that of a known name is replaced in its place, and a
new name goes to the end. -/
def put (name : String) (value : α) : List (String × α) → List (String × α)
  | [] => [(name, value)]
  | (key, old) :: rest =>
    if key = name then (key, value) :: rest else (key, old) :: put name value rest

/-- Sets names one after the other. -/
def putAll (entries new : List (String × α)) : List (String × α) :=
  new.foldl (fun acc entry => put entry.1 entry.2 acc) entries

/-- The entries whose names are not among `names`. -/
def without (names : List String) (entries : List (String × α)) : List (String × α) :=
  entries.filter (!names.contains ·.1)

@[simp] theorem lookup?_nil (name : String) :
    lookup? name ([] : List (String × α)) = none := rfl

/-- A value that is found stands in the list under its name. -/
theorem mem_of_lookup? {name : String} {value : α} {entries : List (String × α)}
    (h : lookup? name entries = some value) : (name, value) ∈ entries := by
  induction entries with
  | nil => cases h
  | cons entry rest ih =>
    obtain ⟨key, old⟩ := entry
    by_cases hk : key = name
    · rw [lookup?, if_pos hk] at h
      cases h
      exact hk ▸ List.mem_cons_self ..
    · rw [lookup?, if_neg hk] at h
      exact List.mem_cons_of_mem _ (ih h)

/-- A name that was just set has the value it was set to. -/
@[simp] theorem lookup?_put_self (name : String) (value : α)
    (entries : List (String × α)) :
    lookup? name (put name value entries) = some value := by
  induction entries with
  | nil => simp [put, lookup?]
  | cons entry rest ih =>
    obtain ⟨key, old⟩ := entry
    by_cases h : key = name <;> simp [put, lookup?, h, ih]

/-- Setting one name leaves the others as they were. -/
theorem lookup?_put_of_ne {name other : String} (h : other ≠ name) (value : α)
    (entries : List (String × α)) :
    lookup? other (put name value entries) = lookup? other entries := by
  induction entries with
  | nil => simp [put, lookup?, h.symm]
  | cons entry rest ih =>
    obtain ⟨key, old⟩ := entry
    by_cases hk : key = name
    · simp [put, lookup?, hk, h.symm]
    · by_cases ho : key = other <;> simp [put, lookup?, hk, ho, ih, h]

/-- Removing names leaves the others as they were. -/
theorem lookup?_without (name : String) (names : List String)
    (entries : List (String × α)) :
    lookup? name (without names entries) =
      if names.contains name then none else lookup? name entries := by
  induction entries with
  | nil => simp [without]
  | cons entry rest ih =>
    obtain ⟨key, value⟩ := entry
    simp only [without] at ih
    by_cases hk : key = name
    · subst hk
      by_cases h : key ∈ names <;> simp_all [without, lookup?]
    · by_cases h : key ∈ names <;> simp_all [without, lookup?]

end Formulary.Assoc
