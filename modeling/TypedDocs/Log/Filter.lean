import TypedDocs.Filter.Cast
import TypedDocs.Log.Event

/-!
# Events of filter casts

A filter cast tells of operators that it does not know, and of objects of such
operators on arrays, in the order it meets them. After the first failure nothing
more is told.
-/

namespace TypedDocs.Reading

/-- The event of an operand at an array location. -/
def operandEvents (index : Index) (p : FieldPath) (v : Value) : List Event :=
  if (index.lookup p.schema).isArray && isForeignObject v then [.foreignObject p] else []

/-- The event of a sub-filter at a location; at an array it is read as one of its items. -/
def subfilterEvents (index : Index) (p : FieldPath) (i : Nat) (v : Value) : List Event :=
  if p.isRoot || !(index.lookup p.schema).isArray then []
  else operandEvents index (p.child (.index i)) v

/-- The events of a value itself, without its parts. -/
def ownEvents (index : Index) : Reading → Value → List Event
  | .foreign name p, _ => [.unknownFilterOperator name p]
  | .location p, v => operandEvents index p v
  | .subfilter p i, v => subfilterEvents index p i v
  | .logical p, v => if v.isArray then [] else subfilterEvents index p 0 v
  | .members item, v =>
    if v.isArray || v.isNull then [] else ownEvents index item v
  | .keep, _ | .fixed _, _ | .scalar _, _ | .comparand _, _ | .container _, _ => []

mutual
/-- The events of casting a value in a reading. -/
def events (index : Index) (r : Reading) : Value → List Event
  | .array xs =>
    r.ownEvents index (.array xs) ++
      match (r.plan index (.array xs)).step with
      | .items f => itemsEvents index f 0 xs
      | _ => []
  | .object fs =>
    r.ownEvents index (.object fs) ++
      match (r.plan index (.object fs)).step with
      | .fields f => fieldsEvents index f fs
      | _ => []
  | v => r.ownEvents index v
/-- The events of casting items. -/
def itemsEvents (index : Index) (f : Nat → Reading) (i : Nat) : List Value → List Event
  | [] => []
  | x :: xs =>
    events index (f i) x ++
      match cast index (f i) x with
      | .ok _ => itemsEvents index f (i + 1) xs
      | .error _ => []
/-- The events of casting fields. -/
def fieldsEvents (index : Index) (f : String → Reading) : List (String × Value) → List Event
  | [] => []
  | (key, x) :: xs =>
    events index (f key) x ++
      match cast index (f key) x with
      | .ok _ => fieldsEvents index f xs
      | .error _ => []
end

end TypedDocs.Reading

namespace TypedDocs.Filter

/-- The events of a filter cast. -/
def events (index : Index) : Value → List Event
  | .object fs => Reading.fieldsEvents index (Reading.ofCondition index .root) fs
  | _ => []

end TypedDocs.Filter
