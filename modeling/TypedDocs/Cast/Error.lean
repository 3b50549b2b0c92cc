import TypedDocs.Dictionary
import TypedDocs.Json.Literal

/-!
# Cast errors and their aggregate

A cast error shows the offending value as a literal. An aggregate holds the last
error marked at each instance key, keys ascending, and so does its text.
-/

namespace TypedDocs

/-- Name of the shape that an object location asks for. -/
def objectName : String := "Object"

/-- Name of the shape that an array location asks for. -/
def arrayName : String := "Array"

inductive CastError where
  /-- A leaf has no conversion to its declared type. -/
  | typeMismatch (literal target : String)
  /-- A container was expected. -/
  | shapeMismatch (literal expected : String)
  /-- An update mixes operators with field names. -/
  | mixedUpdate (operator field : String)
deriving DecidableEq

namespace CastError

def ofType (v : Value) (target : String) : CastError := .typeMismatch v.literal target

def ofShape (v : Value) (expected : String) : CastError := .shapeMismatch v.literal expected

def message : CastError → String
  | .typeMismatch literal target => "Could not cast " ++ literal ++ " to " ++ target
  | .shapeMismatch literal expected => "Could not cast " ++ literal ++ " to " ++ expected
  | .mixedUpdate operator field =>
    "update cannot mix operators and field names (operator `" ++ operator ++ "`, field `"
      ++ field ++ "`)"

end CastError

/-- The failures of a cast: at each instance key the last error marked there. -/
abbrev CastErrors := Dictionary CastError

namespace CastErrors

/-- Records an error, replacing an earlier one at the same key. -/
def mark (errors : CastErrors) (path : String) (error : CastError) : CastErrors :=
  errors.insert path error

/-- Records the rows of a list one after the other. -/
def ofRows (rows : List (String × CastError)) : CastErrors := Dictionary.ofList rows

def merge (errors other : CastErrors) : CastErrors := errors.union other

def hasError (errors : CastErrors) : Bool := !errors.isEmpty

/-- An aggregate without an error is none at all. -/
def toOption (errors : CastErrors) : Option CastErrors :=
  if errors.hasError then some errors else none

/-- All errors on one line. -/
def message (errors : CastErrors) : String :=
  String.intercalate ", " (errors.bindings.map fun b => b.1 ++ ": " ++ b.2.message)

/-- The object of messages by instance key. -/
def toValue (errors : CastErrors) : Value :=
  .object (errors.bindings.map fun b => (b.1, .string b.2.message))

end CastErrors

end TypedDocs
