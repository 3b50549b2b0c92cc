import TypedDocs.Filter.Reading

/-!
# Casting filters

A filter cast carries out the plans of all values inside a filter, from the root
down and in order. The first value that cannot be cast ends it. Fields that the
index does not know are kept.
-/

namespace TypedDocs

namespace Reading

mutual
/-- Casts a value in a reading. -/
def cast (index : Index) (r : Reading) : Value → Except CastError Value
  | .array xs =>
    let plan := r.plan index (.array xs)
    match plan.step with
    | .keep | .fields _ => .ok (Value.wrap plan.wraps (.array xs))
    | .reject e => .error e
    | .convert t => (t.coerce (.array xs)).map (Value.wrap plan.wraps)
    | .items f => (castItems index f 0 xs).map fun xs => Value.wrap plan.wraps (.array xs)
  | .object fs =>
    let plan := r.plan index (.object fs)
    match plan.step with
    | .keep | .items _ => .ok (Value.wrap plan.wraps (.object fs))
    | .reject e => .error e
    | .convert t => (t.coerce (.object fs)).map (Value.wrap plan.wraps)
    | .fields f => (castFields index f fs).map fun fs => Value.wrap plan.wraps (.object fs)
  | v =>
    let plan := r.plan index v
    match plan.step with
    | .keep | .items _ | .fields _ => .ok (Value.wrap plan.wraps v)
    | .reject e => .error e
    | .convert t => (t.coerce v).map (Value.wrap plan.wraps)
/-- Casts items, each in the reading of its index. -/
def castItems (index : Index) (f : Nat → Reading) (i : Nat) :
    List Value → Except CastError (List Value)
  | [] => .ok []
  | x :: xs => do
    let y ← cast index (f i) x
    let ys ← castItems index f (i + 1) xs
    .ok (y :: ys)
/-- Casts fields, each in the reading of its name. -/
def castFields (index : Index) (f : String → Reading) :
    List (String × Value) → Except CastError (List (String × Value))
  | [] => .ok []
  | (key, x) :: xs => do
    let y ← cast index (f key) x
    let ys ← castFields index f xs
    .ok ((key, y) :: ys)
end

end Reading

namespace Filter

/-- Casts a filter, which has to be an object. -/
def cast (index : Index) : Value → Except CastError Value
  | .object fs => (Reading.castFields index (Reading.ofCondition index .root) fs).map .object
  | v => .error (.ofShape v objectName)

end Filter

end TypedDocs
