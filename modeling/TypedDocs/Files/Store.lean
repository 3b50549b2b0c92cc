import TypedDocs.Dictionary
import TypedDocs.Files.Path

/-!
# A store of text files

A store holds files and directories by their location, which is the list of names
from the root written with slashes between them; the root itself is the empty
location. A path is followed name by name, and every name but the last has to be
that of a directory. Reading and writing fail for the same causes as on a disk.
-/

namespace TypedDocs

inductive FileError where
  | notFound
  | alreadyThere
  | notDirectory
  | isDirectory
deriving DecidableEq

def FileError.message : FileError → String
  | notFound => "No such file or directory (os error 2)"
  | alreadyThere => "File exists (os error 17)"
  | notDirectory => "Not a directory (os error 20)"
  | isDirectory => "Is a directory (os error 21)"

inductive FileEntry where
  | file (text : String)
  | directory
deriving DecidableEq

/-- Files and directories by location, and the location where relative paths start. -/
structure FileStore where
  entries : Dictionary FileEntry := Dictionary.empty
  here : String := ""
deriving DecidableEq

namespace FileStore

/-- The entry at a location; the root is always a directory. -/
def entry? (store : FileStore) (location : String) : Option FileEntry :=
  if location.isEmpty then some .directory else store.entries.get? location

/-- One name further down. -/
def below (location name : String) : String :=
  if location.isEmpty then name else location ++ "/" ++ name

/-- The location above; the root is above itself. -/
def above (location : String) : String := (Files.parent? location).getD ""

/-- Follows one name from a location, which has to be a directory. -/
def follow (store : FileStore) (location name : String) : Except FileError String :=
  match store.entry? location with
  | none => .error .notFound
  | some (.file _) => .error .notDirectory
  | some .directory =>
    if name = "" ∨ name = "." then .ok location
    else if name = ".." then .ok (above location)
    else .ok (below location name)

/-- Where a path starts. -/
def start (store : FileStore) (path : String) : String :=
  if Files.isAbsolute path then "" else store.here

/-- The location of a path. Only its last name may be missing from the store. -/
def locate (store : FileStore) (path : String) : Except FileError String :=
  if path.isEmpty then .error .notFound
  else (Files.namesOf path).foldlM store.follow (store.start path)

/-- What a path addresses. -/
def look (store : FileStore) (path : String) : Except FileError (String × FileEntry) := do
  let location ← store.locate path
  match store.entry? location with
  | some entry => .ok (location, entry)
  | none => .error .notFound

def isDirectory (store : FileStore) (path : String) : Bool :=
  match store.look path with
  | .ok (_, .directory) => true
  | _ => false

/-- The text of a file. -/
def read (store : FileStore) (path : String) : Except FileError String := do
  match (← store.look path).2 with
  | .file text => .ok text
  | .directory => .error .isDirectory

/-- The name of an entry that lies directly below a location. -/
def nameBelow? (location entry : String) : Option String :=
  let cs := entry.toList
  let start := if location.isEmpty then [] else location.toList ++ ['/']
  let name := cs.drop start.length
  if start.isPrefixOf cs && !name.isEmpty && !name.contains '/' then some (String.ofList name)
  else none

/-- The entries of a directory by name, in ascending order. -/
def list (store : FileStore) (path : String) : Except FileError (List (String × FileEntry)) := do
  match ← store.look path with
  | (_, .file _) => .error .notDirectory
  | (location, .directory) =>
    .ok (store.entries.bindings.filterMap fun b =>
      (nameBelow? location b.1).map fun name => (name, b.2))

def put (store : FileStore) (location : String) (entry : FileEntry) : FileStore :=
  { store with entries := store.entries.insert location entry }

/-- Writes a file, new or in the place of an old one. Its directory has to be there. -/
def write (store : FileStore) (path text : String) : Except FileError FileStore := do
  if path.isEmpty then .error .notFound
  else
    let names := (Files.namesOf path).reverse
    match names.dropWhile (·.isEmpty) with
    | [] => .error .isDirectory
    | name :: before =>
      let directory ← before.reverse.foldlM store.follow (store.start path)
      let location ← store.follow directory name
      if names.head? = some "" then .error .isDirectory
      else match store.entry? location with
        | some .directory => .error .isDirectory
        | _ => .ok (store.put location (.file text))

/-- Makes a directory where nothing is yet. -/
def makeDirectory (store : FileStore) (path : String) : Except FileError FileStore := do
  let trimmed := (Files.namesOf path).reverse.dropWhile (·.isEmpty)
  if path.isEmpty then .error .notFound
  else
    let location ← trimmed.reverse.foldlM store.follow (store.start path)
    match store.entry? location with
    | some _ => .error .alreadyThere
    | none => .ok (store.put location .directory)

/-- Makes a directory and those above it that are missing; `fuel` bounds the names of the path. -/
def makeDirectoriesWithin (fuel : Nat) (store : FileStore) (path : String) :
    Except FileError FileStore :=
  if path.isEmpty then .ok store
  else match store.makeDirectory path with
    | .ok store => .ok store
    | .error .notFound =>
      match fuel, Files.parent? path with
      | fuel + 1, some parent => do
        let store ← makeDirectoriesWithin fuel store parent
        match store.makeDirectory path with
        | .ok store => .ok store
        | .error e => if store.isDirectory path then .ok store else .error e
      | _, _ => .error .notFound
    | .error e => if store.isDirectory path then .ok store else .error e

/-- Makes a directory and those above it that are missing. A directory that is there stays. -/
def makeDirectories (store : FileStore) (path : String) : Except FileError FileStore :=
  makeDirectoriesWithin path.length store path

end FileStore

end TypedDocs
