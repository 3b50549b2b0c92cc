import TypedDocs.Cast.Error

/-!
# Scalar types

A scalar type is a name, a test for values that already are of the type, and a
conversion for all others. Coercion leaves `null` and values that pass the test as
they are. Two scalar types count as the same type if their names are equal.
-/

namespace TypedDocs

structure ScalarType where
  name : String
  satisfies : Value → Bool
  /-- Only asked for values that do not satisfy the type. -/
  convert : Value → Except CastError Value

namespace ScalarType

instance : BEq ScalarType := ⟨fun a b => a.name = b.name⟩

/-- Whether coercion leaves a value as it is. -/
def accepts (t : ScalarType) (v : Value) : Bool := v.isNull || t.satisfies v

/-- A value of the type made from any value, if there is one. -/
def coerce (t : ScalarType) (v : Value) : Except CastError Value :=
  if t.accepts v then .ok v else t.convert v

theorem coerce_of_accepts {t : ScalarType} {v : Value} (h : t.accepts v = true) :
    t.coerce v = .ok v := by simp [coerce, h]

theorem coerce_null (t : ScalarType) : t.coerce .null = .ok .null := rfl

end ScalarType

end TypedDocs
