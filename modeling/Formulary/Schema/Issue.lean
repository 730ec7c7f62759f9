/-!
# Issues with data

What can be wrong with a piece of data that should describe a value of the library,
and where.

## Main definitions

* `IssueKind` is what is wrong, `PathStep` a step to the place, and `Issue` the two
  together.
* `Checked` is a value or the issues with the data it should have come from.
-/

namespace Formulary.Schema

/-- What is wrong with a piece of data. -/
inductive IssueKind where
  | missing
  | unexpected
  | notString
  | notList
  | notFunction
  /-- The data is none of the words that are allowed, which the text lists. -/
  | notAmong (allowed : String)
  | notInteger
  | unreadableInteger
  | fractional
  | notFinite
  | tooLarge
  | below (least : Int)
  | above (greatest : Int)
  | notBoolean
  | unreadableBoolean
  /-- The data does not describe the fields of a value, of which the text is the
  name. -/
  | notFields (model : String)
  /-- All fields are right, but not together. -/
  | inconsistent (reason : String)
  deriving DecidableEq, Repr

namespace IssueKind

/-- The short name of an issue. -/
def code : IssueKind → String
  | .missing => "missing"
  | .unexpected => "extra_forbidden"
  | .notString => "string_type"
  | .notList => "list_type"
  | .notFunction => "callable_type"
  | .notAmong _ => "enum"
  | .notInteger => "int_type"
  | .unreadableInteger => "int_parsing"
  | .fractional => "int_from_float"
  | .notFinite => "finite_number"
  | .tooLarge => "int_parsing_size"
  | .below _ => "greater_than_equal"
  | .above _ => "less_than_equal"
  | .notBoolean => "bool_type"
  | .unreadableBoolean => "bool_parsing"
  | .notFields _ => "model_type"
  | .inconsistent _ => "value_error"

/-- The wording of an issue. -/
def message : IssueKind → String
  | .missing => "Field required"
  | .unexpected => "Extra inputs are not permitted"
  | .notString => "Input should be a valid string"
  | .notList => "Input should be a valid list"
  | .notFunction => "Input should be callable"
  | .notAmong allowed => "Input should be " ++ allowed
  | .notInteger => "Input should be a valid integer"
  | .unreadableInteger =>
      "Input should be a valid integer, unable to parse string as an integer"
  | .fractional => "Input should be a valid integer, got a number with a fractional part"
  | .notFinite => "Input should be a finite number"
  | .tooLarge => "Unable to parse input string as an integer, exceeded maximum size"
  | .below least => "Input should be greater than or equal to " ++ toString least
  | .above greatest => "Input should be less than or equal to " ++ toString greatest
  | .notBoolean => "Input should be a valid boolean"
  | .unreadableBoolean => "Input should be a valid boolean, unable to interpret input"
  | .notFields model => "Input should be a valid dictionary or instance of " ++ model
  | .inconsistent reason => "Value error, " ++ reason

end IssueKind

/-- A step from a value to one of its parts. -/
inductive PathStep where
  | field (name : String)
  | index (i : Nat)
  deriving DecidableEq, Repr

/-- Something that is wrong at a place, which is given by the steps to it. -/
structure Issue where
  kind : IssueKind
  path : List PathStep
  deriving DecidableEq, Repr

/-- A value, or the issues with its data. -/
abbrev Checked (α : Type) := Except (List Issue) α

namespace Checked

variable {α β : Type}

/-- A single issue with the data itself. -/
def issue (kind : IssueKind) : Checked α :=
  .error [⟨kind, []⟩]

/-- Moves the place of all issues one step further out. -/
def under (step : PathStep) (c : Checked α) : Checked α :=
  c.mapError (·.map fun i => { i with path := step :: i.path })

/-- Two values, or the issues with both. -/
def both (a : Checked α) (b : Checked β) : Checked (α × β) :=
  match a, b with
  | .ok a, .ok b => .ok (a, b)
  | .ok _, .error f => .error f
  | .error e, .ok _ => .error e
  | .error e, .error f => .error (e ++ f)

/-- All values, or all issues. -/
def all : List (Checked α) → Checked (List α)
  | [] => .ok []
  | c :: cs => (both c (all cs)).map fun r => r.1 :: r.2

end Checked

end Formulary.Schema
