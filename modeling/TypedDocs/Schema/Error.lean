import TypedDocs.Json.Writer

/-!
# Schema errors

What can be wrong with a definition, and what can be wrong with a set of declared
paths.
-/

namespace TypedDocs

/-- Why a part of a definition makes no sense. -/
inductive DefinitionFault where
  | notAnObject
  | badFieldName (name : String)
  | unsupportedNode (node : Value)
  | severalElements
  | fieldsUnderOtherType
deriving DecidableEq

def DefinitionFault.message : DefinitionFault → String
  | notAnObject => "a definition must be an object of fields"
  | badFieldName name => "invalid field name `" ++ name ++ "`"
  | unsupportedNode node => "unsupported definition node `" ++ node.compact ++ "`"
  | severalElements => "an array definition holds exactly one element type"
  | fieldsUnderOtherType => "fields are only allowed under an Object type"

inductive SchemaError where
  /-- A name that is neither a container nor registered. -/
  | unknownType (path name : String)
  | invalidDefinition (path : String) (fault : DefinitionFault)
  /-- A path whose parent is not the container that its last segment asks for. -/
  | orphanPath (path parent expected : String)
deriving DecidableEq

def SchemaError.message : SchemaError → String
  | unknownType path name => "unknown type `" ++ name ++ "` declared at `" ++ path ++ "`"
  | invalidDefinition path fault => "invalid definition at `" ++ path ++ "`: " ++ fault.message
  | orphanPath path parent expected =>
    "path `" ++ path ++ "` requires `" ++ parent ++ "` to be declared as " ++ expected

end TypedDocs
