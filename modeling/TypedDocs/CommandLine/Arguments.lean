import TypedDocs.Document
import TypedDocs.Files.Name
import TypedDocs.Schema.Definition
import TypedDocs.Update

/-!
# Arguments of the command line

A command has options, flags and, where it takes files, the names of files. An option
has its value behind an equals sign or in the next argument, which must not look like
an option itself. Each may be given once. Behind `--` everything is the name of a file.
The log level may stand before the command or behind it; the latter wins. Arguments are
written as names of files are, and those that name no file have to be text.
-/

namespace TypedDocs.CommandLine

/-- The schema that a command casts with. -/
structure SchemaChoice where
  path : String
  options : CompileOptions
deriving DecidableEq

inductive Command where
  | document (schema : SchemaChoice) (input : Option String) (options : DocumentOptions)
      (allowErrors : Bool)
  | filter (schema : SchemaChoice) (input : Option String)
  | update (schema : SchemaChoice) (input : Option String) (options : UpdateOptions)
  | paths (schema : SchemaChoice)
  | validate (inputs : List String)
  | bundle (inputs : List String) (output : String) (name : Option String)
deriving DecidableEq

/-- What the arguments ask for. -/
inductive Request where
  | run (command : Command) (logLevel : Option String)
  | version
  | help
deriving DecidableEq

inductive OptionKind where
  | flag
  /-- A value that is text. -/
  | text
  /-- The name of a file, which is not empty. -/
  | path
deriving DecidableEq

/-- What a command understands. -/
structure Usage where
  options : List (String × OptionKind)
  takesFiles : Bool := false
deriving DecidableEq

/-- What was given: options with their values, flags with an empty one, and names of files. -/
structure Given where
  options : List (String × String) := []
  files : List String := []
deriving DecidableEq

namespace Given

def get? (g : Given) (name : String) : Option String := g.options.lookup name

def has (g : Given) (name : String) : Bool := (g.get? name).isSome

/-- Records an option, which must not have been given before. -/
def add? (g : Given) (name value : String) : Option Given :=
  if g.has name then none else some { g with options := g.options ++ [(name, value)] }

def addFile? (u : Usage) (g : Given) (file : String) : Option Given :=
  if u.takesFiles && !file.isEmpty then some { g with files := g.files ++ [file] } else none

end Given

/-- What reading arguments leads to. -/
inductive Scan where
  /-- All were read. -/
  | all (given : Given)
  /-- A word that is neither an option nor a file: the name of a command, and what follows it. -/
  | word (given : Given) (word : String) (rest : List String)
  | version
  | help

def isOption (argument : String) : Bool :=
  argument.toList.head? = some '-' && argument ≠ "-"

/-- An option split at its first equals sign. -/
def splitOption (argument : String) : String × Option String :=
  let cs := argument.toList
  let name := cs.takeWhile (· ≠ '=')
  match cs.drop name.length with
  | [] => (argument, none)
  | _ :: value => (String.ofList name, some (String.ofList value))

/-- Whether an option of a kind can have a value. -/
def fits (kind : OptionKind) (value : String) : Bool :=
  match kind with
  | .flag => true
  | .text => (Files.text? value).isSome
  | .path => !value.isEmpty

/-- The short form of an option, whatever else its argument holds. -/
def isShort (letter : Char) (argument : String) : Bool := ['-', letter].isPrefixOf argument.toList

/-- Reads arguments one after the other. At the top, the first word is the name of a command. -/
def read? (u : Usage) (top : Bool) (g : Given) : List String → Option Scan
  | [] => some (.all g)
  | argument :: rest =>
    let (name, attached) := splitOption argument
    if argument = "--" then (rest.foldlM (Given.addFile? u) g).map .all
    else if !isOption argument then
      if top then some (.word g argument rest)
      else match g.addFile? u argument with
        | some g => read? u top g rest
        | none => none
    else if argument = "--help" || isShort 'h' argument then some .help
    else if top && (argument = "--version" || isShort 'V' argument) then some .version
    else match u.options.lookup name, attached with
      | none, _ | some .flag, some _ => none
      | some .flag, none => match g.add? name "" with
        | some g => read? u top g rest
        | none => none
      | some kind, some value => match (g.add? name value).filter fun _ => fits kind value with
        | some g => read? u top g rest
        | none => none
      | some kind, none => match rest with
        | [] => none
        | value :: rest =>
          let fitting := !isOption value && fits kind value
          match (g.add? name value).filter fun _ => fitting with
          | some g => read? u top g rest
          | none => none

def logOption : String × OptionKind := ("--log-level", .text)

def schemaOptions : List (String × OptionKind) :=
  [("--schema", .path), ("--no-implicit-id", .flag)]

/-- The commands by name. -/
def usages : List (String × Usage) :=
  [("document", ⟨logOption :: schemaOptions ++ [("--input", .path), ("--fail-fast", .flag),
      ("--no-coerce", .flag), ("--allow-errors", .flag)], false⟩),
   ("filter", ⟨logOption :: schemaOptions ++ [("--input", .path)], false⟩),
   ("update", ⟨logOption :: schemaOptions ++ [("--input", .path), ("--overwrite", .flag)], false⟩),
   ("paths", ⟨logOption :: schemaOptions, false⟩),
   ("validate", ⟨[logOption], true⟩),
   ("bundle", ⟨[logOption, ("--output", .path), ("--name", .text)], true⟩)]

def schemaChoice? (g : Given) : Option SchemaChoice :=
  (g.get? "--schema").map fun path => ⟨path, ⟨!g.has "--no-implicit-id"⟩⟩

def files? (g : Given) : Option (List String) := if g.files.isEmpty then none else some g.files

/-- The command of a name, if everything it needs was given. -/
def command? (name : String) (g : Given) : Option Command := do
  match name with
  | "document" =>
    let schema ← schemaChoice? g
    let policy := if g.has "--fail-fast" then ErrorPolicy.failFast else .accumulate
    some (.document schema (g.get? "--input") { policy, coerce := !g.has "--no-coerce" }
      (g.has "--allow-errors"))
  | "filter" =>
    let schema ← schemaChoice? g
    some (.filter schema (g.get? "--input"))
  | "update" =>
    let schema ← schemaChoice? g
    some (.update schema (g.get? "--input") ⟨g.has "--overwrite"⟩)
  | "paths" =>
    let schema ← schemaChoice? g
    some (.paths schema)
  | "validate" =>
    let inputs ← files? g
    some (.validate inputs)
  | "bundle" =>
    let inputs ← files? g
    let output ← g.get? "--output"
    some (.bundle inputs output (g.get? "--name"))
  | _ => none

/-- What a list of arguments asks for, if it is one that can be understood. -/
def parse? (arguments : List String) : Option Request := do
  match ← read? ⟨[logOption], false⟩ true {} arguments with
  | .all _ => none
  | .help => some .help
  | .version => some .version
  | .word above name rest =>
    if name = "help" then
      if rest.isEmpty || rest.all fun r => (usages.lookup r).isSome then some .help else none
    else
      let usage ← usages.lookup name
      match ← read? usage false {} rest with
      | .all g =>
        let command ← command? name g
        some (.run command ((g.get? logOption.1).or (above.get? logOption.1)))
      | .help => some .help
      | .version | .word _ _ _ => none

end TypedDocs.CommandLine
