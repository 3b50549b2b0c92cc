import TypedDocs.Catalog.Basic
import TypedDocs.Log.Event

/-!
# Events of loading a directory

Each definition that compiles is told of, and at the end the directory. Nothing is
told after a definition that does not load.
-/

namespace TypedDocs.Catalog

/-- The events of taking in a listing of the directory at a path. -/
def listingEvents (registry : Registry) (options : CompileOptions) (path : String) :
    Dictionary Index → List (String × FileEntry) → List Event
  | indexes, [] => [.loadedDirectory path indexes.size]
  | indexes, (name, entry) :: rest =>
    match addEntry registry options indexes (name, entry) with
    | .error _ => []
    | .ok after =>
      let told := match entry with
        | .file _ =>
          if Definition.isDefinitionPath name then
            let collection := Files.stem name
            (after.get? collection).toList.map fun index =>
              .compiledDefinition collection index.size
          else []
        | .directory => []
      told ++ listingEvents registry options path after rest

/-- The events of loading a directory. -/
def directoryEvents (registry : Registry) (options : CompileOptions) (store : FileStore)
    (path : String) : List Event :=
  match store.list path with
  | .ok listing => listingEvents registry options path Dictionary.empty listing
  | .error _ => []

end TypedDocs.Catalog
