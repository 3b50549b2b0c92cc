import TypedDocs.Scalar.Builtin

/-!
# Declared types and the registry of scalar types

A declared type is one of the two containers or a scalar type. A registry finds
scalar types by name; a definition may also name the containers, which no
registered type can hide.
-/

namespace TypedDocs

inductive DeclaredType where
  | array
  | object
  | scalar (t : ScalarType)

namespace DeclaredType

def name : DeclaredType → String
  | array => arrayName
  | object => objectName
  | scalar t => t.name

def isContainer : DeclaredType → Bool
  | array | object => true
  | scalar _ => false

/-- The same container, or scalar types of one name. -/
def same : DeclaredType → DeclaredType → Bool
  | array, array => true
  | object, object => true
  | scalar a, scalar b => a == b
  | _, _ => false

instance : BEq DeclaredType := ⟨same⟩

end DeclaredType

/-- Scalar types by name. -/
abbrev Registry := Dictionary ScalarType

namespace Registry

def empty : Registry := Dictionary.empty

/-- Adds a type under its own name; it replaces one of the same name. -/
def register (r : Registry) (t : ScalarType) : Registry := r.insert t.name t

/-- The built-in types. -/
def builtin : Registry := ScalarType.builtins.foldl register empty

/-- The type a definition means by a name. -/
def resolve (r : Registry) (name : String) : Option DeclaredType :=
  if name = arrayName then some .array
  else if name = objectName then some .object
  else (r.get? name).map .scalar

end Registry

end TypedDocs
