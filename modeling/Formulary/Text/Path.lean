/-!
# Paths of files

## Main definitions

* `Text.normalPath` writes a path without superfluous slashes and dots.
-/

namespace Formulary.Text

/-- The parts of a path between its slashes. -/
def pathParts : List Char → List (List Char)
  | [] => [[]]
  | c :: rest =>
    match c, pathParts rest with
    | '/', parts => [] :: parts
    | c, [] => [[c]]
    | c, part :: parts => (c :: part) :: parts

/-- The slashes in front of a path that starts at the root: two if there are exactly
two, else one. -/
def rootSlashes (cs : List Char) : List Char :=
  match (cs.takeWhile (· = '/')).length with
  | 0 => []
  | 2 => ['/', '/']
  | _ => ['/']

/-- The path without empty parts and parts that are a single dot. -/
def normalPath (path : String) : String :=
  let parts := (pathParts path.toList).filter fun part => !part.isEmpty && part ≠ ['.']
  let normal := rootSlashes path.toList ++ List.intercalate ['/'] parts
  if normal.isEmpty then "." else String.ofList normal

end Formulary.Text
