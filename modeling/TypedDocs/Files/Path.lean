import TypedDocs.Files.Name
import TypedDocs.Text.Parts

/-!
# File paths

A file path is written as names with slashes between them. Slashes that are doubled
or stand at the end, and the name `.` behind another name, address nothing new, so
the last name of a path is found behind them.
-/

namespace TypedDocs.Files

/-- The names of a path; an absolute path starts with an empty one. -/
def namesOf (path : String) : List String := (partsAt '/' path.toList).map String.ofList

def isAbsolute (path : String) : Bool := path.toList.head? = some '/'

/-- A path that starts at another one, unless it is absolute. -/
def beneath (base path : String) : String :=
  if isAbsolute path || base.isEmpty then path
  else if base.toList.getLast? = some '/' then base ++ path
  else base ++ "/" ++ path

/-- Drops names that address nothing new from the reversed names of a path. -/
def dropIdle : List String → List String
  | name :: before :: rest =>
    if name = "" ∨ name = "." then dropIdle (before :: rest) else name :: before :: rest
  | names => names

/-- The path of reversed names. -/
def ofReversed : List String → String
  | [] => ""
  | [""] => "/"
  | names => String.intercalate "/" names.reverse

/-- The last name of a path, if it is a name of its own. -/
def name? (path : String) : Option String :=
  match dropIdle (namesOf path).reverse with
  | [] => none
  | name :: _ => if name = "" ∨ name = "." ∨ name = ".." then none else some name

/-- A path without its last name. Neither the empty path nor the root has a parent. -/
def parent? (path : String) : Option String :=
  match dropIdle (namesOf path).reverse with
  | [] | [""] => none
  | _ :: rest => some (ofReversed (dropIdle rest))

/-- A name before and after its last point; a point at the head does not count. -/
def splitName (name : String) : String × Option String :=
  let cs := name.toList.reverse
  match cs.dropWhile (· ≠ '.') with
  | [] | [_] => (name, none)
  | _ :: before =>
    (String.ofList before.reverse, some (String.ofList (cs.takeWhile (· ≠ '.')).reverse))

/-- The last name of a path without its extension, if that is text. -/
def stem? (path : String) : Option String := (name? path).bind fun n => text? (splitName n).1

/-- The stem of a path as the name of something, which is empty if there is no stem that is text. -/
def stem (path : String) : String := (stem? path).getD ""

/-- What follows the last point in the last name of a path, if that is text. -/
def extension? (path : String) : Option String :=
  (name? path).bind fun n => (splitName n).2.bind text?

end TypedDocs.Files
