import TypedDocs.Schema.Index

/-!
# Compiling definitions

A definition is an object of fields. A field is described by the name of a type, by
an array holding the description of its items, or by an object, which either
carries its type under `$type` or describes an object by its fields. Other keys
that start with `$` say nothing about types. Compiling declares one path for each
described position.
-/

namespace TypedDocs

structure CompileOptions where
  /-- Declare `_id` as an object identifier if the definition does not declare it. -/
  implicitId : Bool := true
deriving DecidableEq

namespace Definition

/-- The key that holds the type of a described position. -/
def typeKey : String := "$type"

/-- The path of the identifier of a document. -/
def idPath : String := "_id"

/-- Whether some key of a description is the name of a field. -/
def hasFields (members : Fields) : Bool := members.any fun m => !isOperator m.1

mutual
/-- Declares the position described by a node, and all below it. -/
def declareNode (registry : Registry) (path : String) :
    Value → Declarations → Except SchemaError Declarations
  | .string name, d =>
    match registry.resolve name with
    | some t => .ok (d.insert path (some t))
    | none => .error (.unknownType path name)
  | .array [], d => .ok (d.insert path (some .array))
  | .array [element], d =>
    declareNode registry (join path wildcard) element (d.insert path (some .array))
  | .array _, _ => .error (.invalidDefinition path .severalElements)
  | .object members, d =>
    match declareTyped registry path members d with
    | some typed => do
      let d ← typed
      if hasFields members then
        if (d.typeOf? path).any (· == .object) then declareFields registry path members d
        else .error (.invalidDefinition path .fieldsUnderOtherType)
      else .ok d
    | none =>
      if hasFields members then
        declareFields registry path members (d.insert path (some .object))
      else .ok (d.insert path none)
  | .null, _ => .error (.invalidDefinition path (.unsupportedNode .null))
  | .bool b, _ => .error (.invalidDefinition path (.unsupportedNode (.bool b)))
  | .number n, _ => .error (.invalidDefinition path (.unsupportedNode (.number n)))
/-- Declares a position by the value of the type key among the members, if it is there. -/
def declareTyped (registry : Registry) (path : String) :
    List (String × Value) → Declarations → Option (Except SchemaError Declarations)
  | [], _ => none
  | (key, node) :: rest, d =>
    if key = typeKey then some (declareNode registry path node d)
    else declareTyped registry path rest d
/-- Declares the fields below a position. -/
def declareFields (registry : Registry) (base : String) :
    List (String × Value) → Declarations → Except SchemaError Declarations
  | [], d => .ok d
  | (key, node) :: rest, d =>
    if isOperator key then declareFields registry base rest d
    else if key.isEmpty || key.toList.contains '.' then
      .error (.invalidDefinition base (.badFieldName key))
    else do
      let d ← declareNode registry (join base key) node d
      declareFields registry base rest d
end

/-- The declarations of a definition. -/
def declarations (registry : Registry) (options : CompileOptions) :
    Value → Except SchemaError Declarations
  | .object fields => do
    let d ← declareFields registry "" fields Dictionary.empty
    if options.implicitId && !d.contains idPath then
      .ok (d.insert idPath (some (.scalar .objectId)))
    else .ok d
  | _ => .error (.invalidDefinition "" .notAnObject)

/-- The index of a definition. -/
def compile (registry : Registry) (options : CompileOptions) (definition : Value) :
    Except SchemaError Index := do
  Index.build (← declarations registry options definition)

end Definition

end TypedDocs
