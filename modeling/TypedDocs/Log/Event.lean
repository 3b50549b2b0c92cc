import TypedDocs.Files.Name
import TypedDocs.Path
import TypedDocs.Text.Quoted

/-!
# Events worth a line in the log

An event says what a cast or a load did silently: something left out, or left as it
is. Its line gives the level, the part of the program it belongs to, a message, and
what it is about. Where a path stands in quotes or bare depends on the event.
-/

namespace TypedDocs

inductive Level where
  | error
  | warn
  | info
  | debug
  | trace
deriving DecidableEq

namespace Level

def name : Level → String
  | error => "ERROR"
  | warn => "WARN"
  | info => "INFO"
  | debug => "DEBUG"
  | trace => "TRACE"

/-- Levels by how much they let through; the most urgent one comes first. -/
def rank : Level → Nat
  | error => 1
  | warn => 2
  | info => 3
  | debug => 4
  | trace => 5

end Level

inductive Event where
  /-- A document had a field that is not declared. -/
  | prunedField (p : FieldPath)
  /-- A document had a null where an object is declared. -/
  | removedNullField (p : FieldPath)
  /-- The items of an array are not declared with a type. -/
  | untypedItems (p : FieldPath)
  /-- A filter has operators on an array of which none is known. -/
  | foreignObject (p : FieldPath)
  | unknownFilterOperator (name : String) (p : FieldPath)
  | unknownUpdateOperator (name : String)
  | pipeline
  /-- An update names a field that is not declared. -/
  | prunedName (key schema : String)
  /-- An update sets an object to null. -/
  | removedNullName (key : String)
  | compiledDefinition (collection : String) (paths : Nat)
  | loadedDirectory (path : String) (collections : Nat)
  | validatedDefinition (collection : String) (paths : Nat)
  | wroteBundle (path : String) (collections : Nat)
deriving DecidableEq

namespace Event

def level : Event → Level
  | unknownUpdateOperator _ => .warn
  | loadedDirectory _ _ | wroteBundle _ _ => .info
  | _ => .debug

/-- The part of the program an event belongs to. -/
def target : Event → String
  | prunedField _ | removedNullField _ | untypedItems _ => "schema_cast_core::document"
  | foreignObject _ | unknownFilterOperator _ _ => "schema_cast_core::filter"
  | unknownUpdateOperator _ | pipeline | prunedName _ _ | removedNullName _ =>
    "schema_cast_core::update"
  | compiledDefinition _ _ | loadedDirectory _ _ => "schema_cast_catalog::loader"
  | validatedDefinition _ _ | wroteBundle _ _ => "schema_cast"

def message : Event → String
  | prunedField _ | prunedName _ _ => "pruned undeclared path"
  | removedNullField _ | removedNullName _ => "removed null object"
  | untypedItems _ => "array elements untyped, passing through"
  | foreignObject _ => "unrecognized operator object left as is"
  | unknownFilterOperator _ _ => "unknown filter operator left as is"
  | unknownUpdateOperator _ => "unknown update operator passed through"
  | pipeline => "pipeline update passed through"
  | compiledDefinition _ _ => "compiled definition"
  | loadedDirectory _ _ => "loaded schema directory"
  | validatedDefinition _ _ => "validated definition"
  | wroteBundle _ _ => "wrote bundle"

/-- What an event is about, by name and in written form. -/
def details : Event → List (String × String)
  | prunedField p =>
    [("path", reportQuoted p.instanceKey), ("schema_path", reportQuoted p.schema)]
  | removedNullField p | untypedItems p | foreignObject p =>
    [("path", reportQuoted p.instanceKey)]
  | unknownFilterOperator name p =>
    [("operator", reportQuoted name), ("path", reportQuoted p.instanceKey)]
  | unknownUpdateOperator name => [("operator", reportQuoted name)]
  | pipeline => []
  | prunedName key schema => [("path", reportQuoted key), ("schema_path", reportQuoted schema)]
  | removedNullName key => [("path", reportQuoted key)]
  | compiledDefinition collection paths =>
    [("collection", collection), ("paths", toString paths)]
  | loadedDirectory path collections | wroteBundle path collections =>
    [("path", Files.shown path), ("collections", toString collections)]
  | validatedDefinition collection paths =>
    [("collection", reportQuoted collection), ("paths", toString paths)]

/-- The line of an event. -/
def line (e : Event) : String :=
  e.level.name ++ " " ++ e.target ++ ": " ++
    String.intercalate " " (e.message :: e.details.map fun d => d.1 ++ "=" ++ d.2)

end Event

end TypedDocs
