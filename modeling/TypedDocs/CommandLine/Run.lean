import TypedDocs.CommandLine.Arguments
import TypedDocs.Log.Catalog
import TypedDocs.Log.Update

/-!
# Carrying out commands

A command reads schemas and values from a store, writes a report, and may leave a
changed store behind. A cast command ends with one at the first problem; a document
cast that only reports failures ends with two, unless it is told to allow them. A
bundle is written only if all its definitions are accepted.
-/

namespace TypedDocs.CommandLine

/-- Why a command comes to nothing. -/
inductive CommandError where
  | unreadableSchema (path : String) (cause : CatalogError)
  | invalidSchema (path : String) (cause : SchemaError)
  | unreadableInput (path : String) (cause : FileError)
  | malformedInput
  | cast (cause : CastError)
  | unloadable (path : String) (cause : CatalogError)
  | rejected (path : String) (cause : SchemaError)
  /-- The name of a definition file has no stem that is text. -/
  | unusableName (path : String)
  | duplicateCollection (name : String)
  | outputDirectory (path : String) (cause : FileError)
  | output (path : String) (cause : FileError)
deriving DecidableEq

def quotedPath (path : String) : String := "'" ++ Files.shown path ++ "'"

def CommandError.message : CommandError → String
  | unreadableSchema path cause => "Failed to read " ++ quotedPath path ++ ": " ++ cause.message
  | invalidSchema path cause => "Invalid schema " ++ quotedPath path ++ ": " ++ cause.message
  | unreadableInput path cause => "Failed to read " ++ quotedPath path ++ ": " ++ cause.message
  | malformedInput => "Invalid JSON input: not a JSON document"
  | cast cause => cause.message
  | unloadable path cause => quotedPath path ++ ": " ++ cause.message
  | rejected path cause => quotedPath path ++ ": " ++ cause.message
  | unusableName path => quotedPath path ++ " has no usable file name"
  | duplicateCollection name => "Duplicate collection '" ++ name ++ "'"
  | outputDirectory path cause =>
    "Failed to create output directory " ++ quotedPath path ++ ": " ++ cause.message
  | output path cause => "Failed to write " ++ quotedPath path ++ ": " ++ cause.message

/-- What a command finds when it starts. -/
structure Setting where
  store : FileStore
  stdin : String := ""
  /-- The present instant, in the form that bundles record it. -/
  now : String := ""

/-- What a command leaves behind. -/
structure Report where
  exit : Nat := 0
  out : String := ""
  err : String := ""
  events : List Event := []
  store : FileStore

/-- What is said about a failed command. -/
def errorLine (e : CommandError) : String := "error: " ++ e.message ++ "\n"

/-- The report of a command that came to nothing. -/
def failed (s : Setting) (events : List Event) (e : CommandError) : Report :=
  { exit := 1, err := errorLine e, events, store := s.store }

def printed (v : Value) : String := v.pretty ++ "\n"

/-- The index of the chosen schema. -/
def loadIndex (s : Setting) (schema : SchemaChoice) : Except CommandError Index := do
  let definition ← (Definition.read s.store schema.path).mapError (.unreadableSchema schema.path)
  (Definition.compile .builtin schema.options definition).mapError (.invalidSchema schema.path)

/-- The value to be cast, from a file or the standard input. -/
def readInput (s : Setting) (input : Option String) : Except CommandError Value := do
  let text ← match input with
    | some path => (s.store.read path).mapError (.unreadableInput path)
    | none => .ok s.stdin
  match Value.ofJson? text with
  | some v => .ok v
  | none => .error .malformedInput

/-- Runs a command on an index and a value, if both can be had. -/
def withInput (s : Setting) (schema : SchemaChoice) (input : Option String)
    (f : Index → Value → Report) : Report :=
  match do
    let index ← loadIndex s schema
    let v ← readInput s input
    Except.ok (index, v) with
  | .ok (index, v) => f index v
  | .error e => failed s [] e

/-- The report of a cast that has a value or fails. -/
def castReport (s : Setting) (events : List Event) (r : Except CastError Value) : Report :=
  match r with
  | .ok v => { out := printed v, events, store := s.store }
  | .error e => failed s events (.cast e)

def runDocument (s : Setting) (schema : SchemaChoice) (input : Option String)
    (options : DocumentOptions) (allowErrors : Bool) : Report :=
  withInput s schema input fun index v =>
    let outcome := Document.cast index options v
    let events := Document.events index options v
    match outcome.errors with
    | none => { out := printed outcome.value, events, store := s.store }
    | some errors =>
      { exit := if allowErrors then 0 else 2
        out := printed outcome.value
        err := printed errors.toValue
        events
        store := s.store }

def runFilter (s : Setting) (schema : SchemaChoice) (input : Option String) : Report :=
  withInput s schema input fun index v =>
    castReport s (Filter.events index v) (Filter.cast index v)

def runUpdate (s : Setting) (schema : SchemaChoice) (input : Option String)
    (options : UpdateOptions) : Report :=
  withInput s schema input fun index v =>
    castReport s (Update.events index v) (Update.cast index options v)

/-- A declared path with its type. -/
def pathLine (entry : String × Option DeclaredType) : String :=
  entry.1 ++ "\t" ++ (entry.2.map DeclaredType.name).getD "untyped" ++ "\n"

def runPaths (s : Setting) (schema : SchemaChoice) : Report :=
  match loadIndex s schema with
  | .ok index => { out := String.join (index.entries.map pathLine), store := s.store }
  | .error e => failed s [] e

/-- The catalog of an input, which is a directory or a definition file. -/
def inputCatalog (store : FileStore) (path : String) : Except CommandError Catalog :=
  (if store.isDirectory path then Catalog.ofDirectory .builtin {} store path
    else Catalog.ofFile .builtin {} store path).mapError (.unloadable path)

/-- The catalogs of all inputs. -/
def inputCatalogs (store : FileStore) (inputs : List String) :
    Except CommandError (List Catalog) :=
  inputs.mapM (inputCatalog store)

/-- The events of validating inputs, up to the first one that cannot be loaded. -/
def validateEvents (store : FileStore) : List String → List Event
  | [] => []
  | path :: rest =>
    (if store.isDirectory path then Catalog.directoryEvents .builtin {} store path else []) ++
      match inputCatalog store path with
      | .ok c =>
        c.indexes.bindings.map (fun b => .validatedDefinition b.1 b.2.size) ++
          validateEvents store rest
      | .error _ => []

def total (counts : List Nat) : Nat := counts.foldl (fun n count => n + count) 0

def validatedLine (catalogs : List Catalog) : String :=
  let definitions := total (catalogs.map Catalog.size)
  let paths := total (catalogs.map fun c => total (c.indexes.bindings.map fun b => b.2.size))
  "Validated " ++ toString definitions ++ " definition(s) declaring " ++ toString paths ++
    " path(s).\n"

def runValidate (s : Setting) (inputs : List String) : Report :=
  let events := validateEvents s.store inputs
  match inputCatalogs s.store inputs with
  | .ok catalogs => { out := validatedLine catalogs, events, store := s.store }
  | .error e => failed s events e

/-- The name of an entry, if it is a definition file. -/
def definitionName? (entry : String × FileEntry) : Option String :=
  match entry with
  | (name, .file _) => if Definition.isDefinitionPath name then some name else none
  | (_, .directory) => none

/-- The definition files of an input; a directory stands for all of its definition files, in the
order of their names. -/
def definitionPaths (store : FileStore) (input : String) : List String :=
  match store.list input with
  | .ok listing => (Files.inOrder (listing.filterMap definitionName?)).map (Files.beneath input)
  | .error _ => [input]

/-- Takes the definition in a file into a bundle, if it compiles and its name is text and new. -/
def addDefinition (store : FileStore) (b : Bundle) (path : String) :
    Except CommandError Bundle := do
  let definition ← (Definition.read store path).mapError (.unreadableSchema path)
  let _ ← (Definition.compile .builtin {} definition).mapError (.rejected path)
  match Files.stem? path with
  | none => .error (.unusableName path)
  | some collection =>
    if b.collections.contains collection then .error (.duplicateCollection collection)
    else .ok (b.insert collection definition)

/-- The version that bundles made here are given. -/
def bundleVersion : String := "0.1.0"

/-- The bundle of all definitions in the inputs, with its hash. -/
def bundleOf (s : Setting) (inputs : List String) (name : Option String) :
    Except CommandError Bundle := do
  let start : Bundle := { version := bundleVersion, generatedAt := s.now, name }
  let b ← (inputs.flatMap (definitionPaths s.store)).foldlM (addDefinition s.store) start
  .ok b.sealed

/-- Makes the directory of an output. -/
def prepareOutput (store : FileStore) (output : String) : Except CommandError FileStore :=
  match Files.parent? output with
  | none | some "" => .ok store
  | some parent => (store.makeDirectories parent).mapError (.outputDirectory parent)

/-- Writes a bundle. A directory made for it stays even if the bundle cannot be written. -/
def writeBundle (s : Setting) (b : Bundle) (output : String) : Report :=
  match prepareOutput s.store output with
  | .error e => failed s [] e
  | .ok store =>
    match b.save store output with
    | .error e => { failed s [] (.output output e) with store }
    | .ok store =>
      { out := "Bundled " ++ toString b.size ++ " collection(s) into " ++ quotedPath output ++
          ".\n"
        events := [.wroteBundle output b.size]
        store }

def runBundle (s : Setting) (inputs : List String) (output : String) (name : Option String) :
    Report :=
  match bundleOf s inputs name with
  | .ok b => writeBundle s b output
  | .error e => failed s [] e

/-- Carries out a command. -/
def run (s : Setting) : Command → Report
  | .document schema input options allowErrors => runDocument s schema input options allowErrors
  | .filter schema input => runFilter s schema input
  | .update schema input options => runUpdate s schema input options
  | .paths schema => runPaths s schema
  | .validate inputs => runValidate s inputs
  | .bundle inputs output name => runBundle s inputs output name

/-- The name and version of the program. -/
def versionLine : String := "schema-cast 0.1.0\n"

/-- How the program is called. -/
def usageText : String :=
  "Cast documents, query filters and updates against a schema definition\n\n" ++
  "Usage: schema-cast [OPTIONS] <COMMAND>\n\n" ++
  "Commands: document, filter, update, paths, validate, bundle\n"

end TypedDocs.CommandLine
