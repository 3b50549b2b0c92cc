import TypedDocs.Catalog.Error
import TypedDocs.Catalog.Record
import TypedDocs.Digest.Sha256
import TypedDocs.Json.Node
import TypedDocs.Json.Writer

/-!
# Bundles of definitions

A bundle holds the definitions of many collections in one file. Its hash, if it has
one, is the digest of the text of its collections, in ascending order of their names
and with the fields of each definition in their written order.
-/

namespace TypedDocs

structure Bundle where
  version : String
  generatedAt : String
  name : Option String := none
  hash : Option String := none
  collections : Dictionary Value := Dictionary.empty
deriving DecidableEq

namespace Bundle

/-- Adds or replaces a definition. A stored hash is void afterwards. -/
def insert (b : Bundle) (collection : String) (definition : Value) : Bundle :=
  { b with collections := b.collections.insert collection definition, hash := none }

def size (b : Bundle) : Nat := b.collections.size

/-- The text that the hash is a digest of. -/
def content (b : Bundle) : String := (Value.object b.collections.bindings).compact

def contentHash (b : Bundle) : String := Sha256.hex b.content

/-- Stores the hash of the content. -/
def sealed (b : Bundle) : Bundle := { b with hash := some b.contentHash }

/-- A bundle without a hash passes, and one with the hash of its content. -/
def verify (b : Bundle) : Except CatalogError Unit :=
  match b.hash with
  | none => .ok ()
  | some stored =>
    if stored = b.contentHash then .ok () else .error (.checksum stored b.contentHash)

/-- A member that is written only if it is there. -/
def optionalField (key : String) : Option String → Fields
  | none => []
  | some s => [(key, .string s)]

def toValue (b : Bundle) : Value :=
  .object (
    [("version", .string b.version)] ++ optionalField "name" b.name ++
    [("generated_at", .string b.generatedAt)] ++ optionalField "bundle_hash" b.hash ++
    [("collections", .object b.collections.bindings)])

/-- The members of a bundle, in the order of a bundle that is written as a list. -/
def memberNames : List String := ["version", "name", "generated_at", "bundle_hash", "collections"]

def text? : Node → Option String
  | .string s => s
  | _ => none

def optionalText? : Node → Option (Option String)
  | .null => some none
  | n => (text? n).map some

/-- The definitions by collection; the last one of a collection counts. -/
def collections? : Node → Option (Dictionary Value)
  | .object members =>
    (Node.memberValues? (maxNesting - 2) members).map Dictionary.ofList
  | _ => none

/-- The members of a bundle by name. A list gives them by position. -/
def members? : Node → Option (List (String × Node))
  | .object members => members.mapM fun m => m.1.map fun name => (name, m.2)
  | .array items =>
    if items.length ≤ memberNames.length then some (memberNames.zip items) else none
  | _ => none

/-- The bundle that a tree stands for. Members of other names are not looked at. -/
def ofNode? (n : Node) : Option Bundle := do
  let members ← members? n
  let version ← Record.field? members "version" none text?
  let name ← Record.field? members "name" (some none) optionalText?
  let generatedAt ← Record.field? members "generated_at" none text?
  let hash ← Record.field? members "bundle_hash" (some none) optionalText?
  let collections ← Record.field? members "collections" (some Dictionary.empty) collections?
  some { version, generatedAt, name, hash, collections }

/-- The bundle that a text holds. -/
def parse? (text : String) : Option Bundle := (Node.parse? text).bind ofNode?

/-- Reads a bundle from a file, without verifying it. -/
def load (store : FileStore) (path : String) : Except CatalogError Bundle :=
  match store.read path with
  | .error .isDirectory => .error .json
  | .error e => .error (.file e)
  | .ok text =>
    match parse? text with
    | some b => .ok b
    | none => .error .json

/-- Writes a bundle to a file. -/
def save (b : Bundle) (store : FileStore) (path : String) : Except FileError FileStore :=
  store.write path b.toValue.pretty

end Bundle

end TypedDocs
