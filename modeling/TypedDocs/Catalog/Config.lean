import TypedDocs.Catalog.Basic
import TypedDocs.Document
import TypedDocs.Update
import TypedDocs.Yaml.Writer

/-!
# Configuration files

A configuration names the sources of the schemas and the options of the casts. It is
a YAML mapping in which all but the version may be left out; a section that is null
has its defaults, too. Relative paths in a file start at the directory of that file.
-/

namespace TypedDocs

/-- A source as configured. Exactly one of the places should be given. -/
structure SourceEntry where
  directory : Option String := none
  bundle : Option String := none
  file : Option String := none
deriving DecidableEq

structure Config where
  version : String
  sources : List SourceEntry := []
  document : DocumentOptions := {}
  update : UpdateOptions := {}
  definition : CompileOptions := {}
  /-- Where relative paths start. -/
  base : Option String := none
deriving DecidableEq

namespace SourceEntry

/-- The source that an entry stands for, with relative paths starting at `base`. -/
def toSource (base : Option String) (e : SourceEntry) : Except CatalogError Source :=
  let place (path : String) : String := match base with
    | some base => Files.beneath base path
    | none => path
  match e.directory, e.bundle, e.file with
  | some p, none, none => .ok (.directory (place p))
  | none, some p, none => .ok (.bundle (place p))
  | none, none, some p => .ok (.file (place p))
  | _, _, _ => .error .ambiguousSource

end SourceEntry

namespace Config

/-! ## Reading -/

/-- A plain scalar that stands for nothing. -/
def isNull : Yaml.Node → Bool
  | .scalar _ plain text => plain && (text.isEmpty || Yaml.isNullText text)
  | _ => false

/-- The members of a section by name. -/
def section? (n : Yaml.Node) : Option (List (String × Yaml.Node)) :=
  if isNull n then some []
  else match n with
    | .mapping _ entries => entries.mapM fun e => e.1.text?.map fun key => (key, e.2)
    | _ => none

def flag? : Yaml.Node → Option Bool
  | .scalar _ true text => Yaml.boolOfText? text
  | _ => none

def policy? (n : Yaml.Node) : Option ErrorPolicy := do
  let text ← n.text?
  if text = "accumulate" then some .accumulate
  else if text = "fail_fast" then some .failFast
  else none

def path? (n : Yaml.Node) : Option (Option String) :=
  if isNull n then some none else n.text?.map some

def sourceEntry? (n : Yaml.Node) : Option SourceEntry := do
  let members ← section? n
  let directory ← Record.field? members "dir" (some none) path?
  let bundle ← Record.field? members "bundle" (some none) path?
  let file ← Record.field? members "file" (some none) path?
  some { directory, bundle, file }

def sources? (n : Yaml.Node) : Option (List SourceEntry) :=
  if isNull n then some []
  else match n with
    | .sequence _ items => items.mapM sourceEntry?
    | _ => none

def document? (n : Yaml.Node) : Option DocumentOptions := do
  let members ← section? n
  let default : DocumentOptions := {}
  let policy ← Record.field? members "policy" (some default.policy) policy?
  let coerce ← Record.field? members "coerce" (some default.coerce) flag?
  some { policy, coerce }

def update? (n : Yaml.Node) : Option UpdateOptions := do
  let members ← section? n
  let default : UpdateOptions := {}
  let overwrite ← Record.field? members "overwrite" (some default.overwrite) flag?
  some { overwrite }

def definition? (n : Yaml.Node) : Option CompileOptions := do
  let members ← section? n
  let default : CompileOptions := {}
  let implicitId ← Record.field? members "implicit_id" (some default.implicitId) flag?
  some { implicitId }

/-- The configuration that a node stands for. -/
def ofNode? (n : Yaml.Node) : Option Config := do
  let members ← section? n
  let version ← Record.field? members "version" none Yaml.Node.text?
  let sources ← Record.field? members "sources" (some []) sources?
  let document ← Record.field? members "document" (some {}) document?
  let update ← Record.field? members "update" (some {}) update?
  let definition ← Record.field? members "definition" (some {}) definition?
  some { version, sources, document, update, definition }

/-- Reads a configuration from a file. -/
def load (store : FileStore) (path : String) : Except CatalogError Config :=
  match store.read path with
  | .error .isDirectory => .error .yaml
  | .error e => .error (.file e)
  | .ok text =>
    match (Yaml.Node.parse? text).bind ofNode? with
    | some config => .ok { config with base := Files.parent? path }
    | none => .error .yaml

/-! ## Writing -/

def policyName : ErrorPolicy → String
  | .accumulate => "accumulate"
  | .failFast => "fail_fast"

def flagName (b : Bool) : String := if b then "true" else "false"

/-- The members of a source that are given, by name. -/
def sourceMembers (e : SourceEntry) : List (String × String) :=
  [("dir", e.directory), ("bundle", e.bundle), ("file", e.file)].filterMap fun m =>
    m.2.map fun path => (m.1, path)

/-- An item of the list of sources. -/
def sourceText (e : SourceEntry) : String :=
  match sourceMembers e with
  | [] => "- \x7b\x7d\n"
  | members =>
    "- " ++ String.intercalate "  " (members.map fun m => m.1 ++ ": " ++ Yaml.scalarLine 4 m.2)

/-- A configuration as YAML text, with all members in their fixed order. -/
def text (c : Config) : String :=
  let sources := if c.sources.isEmpty then "sources: []\n"
    else "sources:\n" ++ String.join (c.sources.map sourceText)
  "version: " ++ Yaml.scalarLine 2 c.version ++ sources ++
  "document:\n  policy: " ++ policyName c.document.policy ++
  "\n  coerce: " ++ flagName c.document.coerce ++
  "\nupdate:\n  overwrite: " ++ flagName c.update.overwrite ++
  "\ndefinition:\n  implicit_id: " ++ flagName c.definition.implicitId ++ "\n"

/-- Writes a configuration to a file. -/
def save (c : Config) (store : FileStore) (path : String) : Except FileError FileStore :=
  store.write path c.text

/-! ## Use -/

/-- The catalog of the configured sources, with the built-in types. -/
def catalog (c : Config) (store : FileStore) : Except CatalogError Catalog := do
  let sources ← c.sources.mapM (SourceEntry.toSource c.base)
  Catalog.build Registry.builtin c.definition store sources

end Config

end TypedDocs
