import TypedDocs.Catalog.Bundle
import TypedDocs.Schema.Definition
import TypedDocs.Yaml.Core

/-!
# Catalogs of compiled schemas

A catalog holds the indexes of collections by name. It is filled by hand, from a
directory with a file for each collection, from a bundle, or from a single file. The
name of a file up to its extension names the collection. A directory is loaded from
its listing alone, entry by entry. Where several sources are given, the first one
that loads counts.
-/

namespace TypedDocs

/-- Where a catalog comes from. -/
inductive Source where
  | directory (path : String)
  | bundle (path : String)
  | file (path : String)
  | memory
  /-- The first of these that loaded. -/
  | multiple (sources : List Source)

structure Catalog where
  indexes : Dictionary Index := Dictionary.empty
  source : Source := .memory

namespace Definition

/-- Whether a file of this path holds YAML; all others hold JSON. -/
def isYaml (path : String) : Bool :=
  match Files.extension? path with
  | some e => e = "yaml" || e = "yml"
  | none => false

/-- Whether a file of this path is a definition when it is met in a directory. -/
def isDefinitionPath (path : String) : Bool :=
  isYaml path || Files.extension? path = some "json"

def malformed (path : String) : CatalogError := if isYaml path then .yaml else .json

/-- The definition in the text of a file. -/
def parse (path text : String) : Except CatalogError Value :=
  match if isYaml path then Value.ofYaml? text else Value.ofJson? text with
  | some v => .ok v
  | none => .error (malformed path)

/-- Reads the definition in a file. -/
def read (store : FileStore) (path : String) : Except CatalogError Value :=
  match store.read path with
  | .error .isDirectory => .error (malformed path)
  | .error e => .error (.file e)
  | .ok text => parse path text

end Definition

namespace Catalog

def empty : Catalog := {}

def get? (c : Catalog) (collection : String) : Option Index := c.indexes.get? collection

/-- The index of a collection that has to be there. -/
def index (c : Catalog) (collection : String) : Except CatalogError Index :=
  match c.get? collection with
  | some index => .ok index
  | none => .error (.unknownCollection collection)

/-- Adds or replaces a collection. -/
def insert (c : Catalog) (collection : String) (index : Index) : Catalog :=
  { c with indexes := c.indexes.insert collection index }

def contains (c : Catalog) (collection : String) : Bool := c.indexes.contains collection

/-- The names of the collections, in ascending order. -/
def collections (c : Catalog) : List String := c.indexes.keys

def size (c : Catalog) : Nat := c.indexes.size

def isEmpty (c : Catalog) : Bool := c.indexes.isEmpty

/-- Compiles the definition of a collection. -/
def compile (registry : Registry) (options : CompileOptions) (collection : String)
    (definition : Value) : Except CatalogError Index :=
  match Definition.compile registry options definition with
  | .ok index => .ok index
  | .error e => .error (.schema collection e)

/-- Compiles the definition in the text of a file. -/
def compileText (registry : Registry) (options : CompileOptions) (path text : String) :
    Except CatalogError Index := do
  compile registry options (Files.stem path) (← Definition.parse path text)

/-- Takes in one entry of a directory. Whatever is not a definition file is passed over. -/
def addEntry (registry : Registry) (options : CompileOptions) (indexes : Dictionary Index)
    (entry : String × FileEntry) : Except CatalogError (Dictionary Index) :=
  match entry with
  | (name, .file text) =>
    if Definition.isDefinitionPath name then do
      let index ← compileText registry options name text
      .ok (indexes.insert (Files.stem name) index)
    else .ok indexes
  | (_, .directory) => .ok indexes

/-- The indexes of the definition files in a listing, taken in entry by entry. -/
def ofListing (registry : Registry) (options : CompileOptions)
    (listing : List (String × FileEntry)) : Except CatalogError (Dictionary Index) :=
  listing.foldlM (addEntry registry options) Dictionary.empty

/-- Loads every definition file of a directory. -/
def ofDirectory (registry : Registry) (options : CompileOptions) (store : FileStore)
    (path : String) : Except CatalogError Catalog :=
  match store.list path with
  | .error e => .error (.file e)
  | .ok listing => do
    let indexes ← ofListing registry options listing
    .ok { indexes, source := .directory path }

/-- The indexes of the definitions in a bundle. -/
def ofDefinitions (registry : Registry) (options : CompileOptions) (definitions : Dictionary Value) :
    Except CatalogError (Dictionary Index) :=
  definitions.bindings.foldlM (fun indexes b => do
    let index ← compile registry options b.1 b.2
    .ok (indexes.insert b.1 index)) Dictionary.empty

/-- Loads a bundle, which has to pass verification. -/
def ofBundle (registry : Registry) (options : CompileOptions) (store : FileStore)
    (path : String) : Except CatalogError Catalog := do
  let b ← Bundle.load store path
  b.verify
  let indexes ← ofDefinitions registry options b.collections
  .ok { indexes, source := .bundle path }

/-- Loads a single definition file, whatever its extension. -/
def ofFile (registry : Registry) (options : CompileOptions) (store : FileStore)
    (path : String) : Except CatalogError Catalog := do
  let definition ← Definition.read store path
  let index ← compile registry options (Files.stem path) definition
  .ok { indexes := Dictionary.empty.insert (Files.stem path) index, source := .file path }

/-- Loads one source. Nothing can be loaded from memory, nor from several sources at once. -/
def ofSource (registry : Registry) (options : CompileOptions) (store : FileStore) :
    Source → Except CatalogError Catalog
  | .directory path => ofDirectory registry options store path
  | .bundle path => ofBundle registry options store path
  | .file path => ofFile registry options store path
  | .memory | .multiple _ => .error .noSources

/-- The catalog of the first source that loads. -/
def build (registry : Registry) (options : CompileOptions) (store : FileStore)
    (sources : List Source) : Except CatalogError Catalog :=
  match sources.findSome? fun s => (ofSource registry options store s).toOption with
  | some c => .ok { c with source := .multiple sources }
  | none => .error .noSources

end Catalog

end TypedDocs
