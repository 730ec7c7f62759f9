/-!
# Sets of names

A finite set of strings as the list of its members in strictly increasing order by
code point.

## Main definitions

* `NameSet.insert` adds a name and `NameSet.ofList` collects names.
-/

namespace Formulary.NameSet

/-- Adds a name to an increasing list; a name that is there already is not added
again. -/
def insert (name : String) : List String → List String
  | [] => [name]
  | first :: rest =>
    if name < first then name :: first :: rest
    else if name = first then first :: rest
    else first :: insert name rest

/-- The distinct names of a list in increasing order. -/
def ofList (names : List String) : List String :=
  names.foldr insert []

@[simp] theorem ofList_nil : ofList [] = [] := rfl

@[simp] theorem ofList_cons (name : String) (names : List String) :
    ofList (name :: names) = insert name (ofList names) := rfl

/-- Insertion adds one name and loses none. -/
@[simp] theorem mem_insert {x name : String} {names : List String} :
    x ∈ insert name names ↔ x = name ∨ x ∈ names := by
  induction names with
  | nil => simp [insert]
  | cons first rest ih =>
    by_cases h : name < first
    · simp [insert, h]
    · by_cases he : name = first
      · subst he
        simp [insert]
      · simp only [insert, h, he, if_false, List.mem_cons, ih]
        exact or_left_comm

/-- The members of the set are the names of the list. -/
@[simp] theorem mem_ofList {x : String} {names : List String} :
    x ∈ ofList names ↔ x ∈ names := by
  induction names with
  | nil => simp
  | cons name names ih => simp [ih]

end Formulary.NameSet
