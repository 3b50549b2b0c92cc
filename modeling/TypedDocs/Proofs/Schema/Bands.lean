import TypedDocs.Proofs.Schema.Compiled

/-!
# A schema of bands

One compiled schema with a name object, an array of objects, an array of arrays and
an untyped path. General statements are tried on it at concrete values.
-/

namespace TypedDocs

namespace Definition

def bands : Value :=
  .object [("name", .object [("first", .string "String"), ("last", .string "String")]),
    ("born", .string "Number"),
    ("members", .array [.object [("first", .string "String"), ("born", .string "Number")]]),
    ("tags", .array [.string "String"]),
    ("points", .array [.array [.string "Number"]]),
    ("extra", .object [])]

end Definition

/-- The schema of bands, compiled with the built-in types. -/
def bands : Index :=
  match Definition.compile Registry.builtin {} Definition.bands with
  | .ok index => index
  | .error _ => ⟨Dictionary.empty⟩

theorem compile_bands : Definition.compile Registry.builtin {} Definition.bands = .ok bands := by
  rfl

theorem bands_hasBuiltinRules : bands.HasBuiltinRules :=
  Definition.hasBuiltinRules_of_compile Registry.builtin_hasBuiltinRules compile_bands

end TypedDocs
