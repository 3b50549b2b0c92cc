import Std.Time.DateTime.Timestamp
import TypedDocs.Calendar.Instant
import TypedDocs.CommandLine.Run
import TypedDocs.Log.Threshold

/-!
# The program

The outer layer brings the files that a command names into a store, runs the command
on it, and writes to the disk what the command changed in the store. It reads only files
whose names are text, since the system library has no other names.
-/

namespace TypedDocs.CommandLine

/-- The paths that a command names. -/
def Command.places : Command → List String
  | .document schema input _ _ | .filter schema input | .update schema input _ =>
    schema.path :: input.toList
  | .paths schema => [schema.path]
  | .validate inputs => inputs
  | .bundle inputs output _ => inputs ++ [output]

/-- The text of a file. One that is not text reads as a character that no format allows. -/
def textOfFile (location : String) : IO String := do
  try IO.FS.readFile ("/" ++ location)
  catch _ => return "\x00"

/-- Brings what lies at a location of the disk into a store. -/
def bring (store : FileStore) (location : String) : IO FileStore := do
  let path := (← IO.currentDir) / ("/" ++ location)
  if (store.entry? location).isSome then return store
  else if ← path.isDir then return store.put location .directory
  else if ← path.pathExists then return store.put location (.file (← textOfFile location))
  else return store

/-- Brings everything that a path leads through into a store. -/
def bringPath (store : FileStore) (path : String) : IO FileStore := do
  let mut store := store
  let mut location := store.start path
  for name in Files.namesOf path do
    match store.follow location name with
    | .ok next =>
      store ← bring store next
      location := next
    | .error _ => return store
  return store

/-- Brings the definition files of a directory into a store. -/
def bringDefinitions (store : FileStore) (path : String) : IO FileStore := do
  match store.look path with
  | .ok (location, .directory) =>
    let mut store := store
    for entry in ← ((← IO.currentDir) / ("/" ++ location)).readDir do
      if Definition.isDefinitionPath entry.fileName then
        store ← bring store (FileStore.below location entry.fileName)
    return store
  | _ => return store

/-- Writes the entries of a store that another one does not have. -/
def writeChanges (before after : FileStore) : IO Unit := do
  for (location, entry) in after.entries.bindings do
    if before.entries.get? location ≠ some entry then
      match entry with
      | .directory => IO.FS.createDirAll ("/" ++ location)
      | .file text => IO.FS.writeFile ("/" ++ location) text

/-- The paths that may be directories of definitions. -/
def Command.inputs : Command → List String
  | .validate inputs | .bundle inputs _ _ => inputs
  | _ => []

/-- Whether a command waits for its input. -/
def Command.readsStdin : Command → Bool
  | .document _ none _ _ | .filter _ none | .update _ none _ => true
  | _ => false

/-- The standard input, to its end. -/
def readStdin : IO String := do
  let mut text := ""
  let stdin ← IO.getStdin
  repeat
    let line ← stdin.getLine
    if line.isEmpty then break
    text := text ++ line
  return text

def now : IO String := do
  let nanos := (← Std.Time.Timestamp.now).toNanosecondsSinceUnixEpoch.val
  return (Instant.clockText? nanos).getD ""

/-- Runs a command on the disk. -/
def perform (command : Command) (logLevel : Option String) : IO UInt32 := do
  let here := ((toString (← IO.currentDir)).toList.drop 1)
  let mut store : FileStore := { here := String.ofList here }
  store ← bringPath store (toString (← IO.currentDir))
  for place in command.places do
    store ← bringPath store place
  for input in command.inputs do
    store ← bringDefinitions store input
  let stdin ← if command.readsStdin then readStdin else pure ""
  let report := run { store, stdin, now := ← now } command
  let threshold := Threshold.ofText logLevel
  for event in report.events do
    if threshold.admits event then IO.eprintln event.line
  IO.print report.out
  IO.eprint report.err
  writeChanges store report.store
  return UInt32.ofNat report.exit

end TypedDocs.CommandLine

open TypedDocs.CommandLine in
/-- Runs the program. -/
def main (arguments : List String) : IO UInt32 := do
  match parse? arguments with
  | some (.run command logLevel) => perform command logLevel
  | some .version =>
    IO.print versionLine
    return 0
  | some .help =>
    IO.print usageText
    return 0
  | none =>
    IO.eprint usageText
    return 2
