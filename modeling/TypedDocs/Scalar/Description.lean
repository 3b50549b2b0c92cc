import TypedDocs.Scalar.Registry
import TypedDocs.Text.Quoted

/-!
# Descriptions of types

How scalar types, declared types and registries are shown to someone who inspects
them. Names are quoted, and a registry lists its names in ascending order.
-/

namespace TypedDocs

def ScalarType.description (t : ScalarType) : String :=
  "ScalarType(" ++ reportQuoted t.name ++ ")"

def DeclaredType.description : DeclaredType → String
  | .array => "Array"
  | .object => "Object"
  | .scalar t => "Scalar(" ++ t.description ++ ")"

def Registry.description (r : Registry) : String :=
  "CoercionRegistry \x7b types: [" ++ String.intercalate ", " (r.keys.map reportQuoted) ++ "] \x7d"

end TypedDocs
