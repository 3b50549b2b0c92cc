import TypedDocs.Schema.Error
import TypedDocs.Files.Store

/-!
# Causes why schemas cannot be loaded or saved

A catalog fails over a file, over the text in it, over a definition in that text, or
because what was asked for is not there.
-/

namespace TypedDocs

inductive CatalogError where
  | file (cause : FileError)
  /-- A file does not hold the JSON text it should. -/
  | json
  /-- A file does not hold the YAML text it should. -/
  | yaml
  | schema (collection : String) (cause : SchemaError)
  /-- The hash stored in a bundle is not that of its content. -/
  | checksum (stored computed : String)
  | unknownCollection (name : String)
  /-- A configured source does not name exactly one place. -/
  | ambiguousSource
  | noSources
deriving DecidableEq

namespace CatalogError

def message : CatalogError → String
  | file cause => "I/O error: " ++ cause.message
  | json => "JSON error: not a document of the expected form"
  | yaml => "YAML error: not a document of the expected form"
  | schema collection cause =>
    "invalid schema for collection `" ++ collection ++ "`: " ++ cause.message
  | checksum stored computed =>
    "invalid checksum: bundle hash " ++ stored ++ " does not match content hash " ++ computed
  | unknownCollection name => "unknown collection `" ++ name ++ "`"
  | ambiguousSource =>
    "invalid config: each source needs exactly one of `dir`, `bundle` or `file`"
  | noSources => "no schema sources available"

end CatalogError

end TypedDocs
