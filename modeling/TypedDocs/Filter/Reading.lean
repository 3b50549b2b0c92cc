import TypedDocs.Schema.Resolve
import TypedDocs.Operator

/-!
# How the parts of a filter are read

Every value inside a filter stands in some role: the operand of a field, a list of
sub-filters, a value compared with a scalar type, and so on. A `Reading` names the
role. `plan` decides, from the reading and one look at the value, what happens
there: the value is left alone, rejected, converted, or taken apart, in which case
each part gets a reading of its own. A plan never recurses into the value.
-/

namespace TypedDocs

inductive Reading where
  /-- Left as it is. -/
  | keep
  /-- The operand of an operator at a location that is in no table; left as it is. -/
  | foreign (name : String) (p : FieldPath)
  /-- Coerced as a whole. -/
  | fixed (t : ScalarType)
  /-- Compared with a scalar type: a value, or operators on one. -/
  | scalar (t : ScalarType)
  /-- The operand of the field at a location. -/
  | location (p : FieldPath)
  /-- Compared with the field at a location; on an array field a single value means its items. -/
  | comparand (p : FieldPath)
  /-- A list of values of one reading; a single value stands for a list of one. -/
  | members (item : Reading)
  /-- A list of sub-filters at a location; a single one stands for a list of one. -/
  | logical (p : FieldPath)
  /-- One of the sub-filters of a list. -/
  | subfilter (p : FieldPath) (i : Nat)
  /-- Matched against the items of the array at a location. -/
  | container (p : FieldPath)

/-- What happens to a value; `wraps` arrays are put around the result. -/
inductive Step where
  | keep
  | reject (e : CastError)
  | convert (t : ScalarType)
  /-- Each item of an array is read by its index. -/
  | items (reading : Nat → Reading)
  /-- Each field of an object is read by its name. -/
  | fields (reading : String → Reading)

structure Plan where
  wraps : Nat
  step : Step

namespace Plan

def keep : Plan := ⟨0, .keep⟩

/-- The plan of a value that stands for a list of one. -/
def wrapped (n : Nat) (p : Plan) : Plan := ⟨p.wraps + n, p.step⟩

end Plan

/-- The objects that stand for a single value although their key starts with `$`. -/
def valueWrappers : List String := ["$oid", "$date", "$regularExpression"]

/-- An object with a known operator among its keys. -/
def isOperatorObject : Value → Bool
  | .object fs => fs.any fun f => isKnownOperator f.1
  | _ => false

/-- An object with operators among its keys of which none is known and none marks a value. -/
def isForeignObject : Value → Bool
  | .object fs =>
    (fs.any fun f => isOperator f.1) &&
      !fs.any fun f => isKnownOperator f.1 || valueWrappers.contains f.1
  | _ => false

namespace Index

/-- Where a single operand of an array location comes to rest, below all declared array levels. -/
def operandLanding (index : Index) (p : FieldPath) : Nat × FieldPath :=
  if _h : (index.lookup p.schema).isArray then
    let (n, q) := index.operandLanding (p.child (.index 0))
    (n + 1, q)
  else (0, p)
termination_by index.reach + 1 - p.schema.length
decreasing_by
  have hcontains : index.contains p.schema = true := by
    rw [contains_iff]
    cases hl : index.lookup p.schema <;> simp_all [Lookup.isArray, Lookup.isUndeclared]
  have hreach := length_le_reach hcontains
  have hlt := length_lt_join_wildcard p.schema
  simp only [FieldPath.child, schemaKey, Segment.schemaText]
  omega

end Index

namespace Reading

/-- The reading of the operands in an object of operators on a scalar. -/
def ofScalarOperand (t : ScalarType) (key : String) : Reading :=
  if isOperator key then
    match FilterOperator.ofName key with
    | .comparison => .scalar t
    | .membership | .logical => .members (.scalar t)
    | .element selector => .fixed selector.operandType
    | .container | .ignored | .unknown => .keep
  else .keep

/-- The reading of the fields of a filter at a location. -/
def ofCondition (index : Index) (p : FieldPath) (key : String) : Reading :=
  if isOperator key then
    match FilterOperator.ofName key with
    | .logical => .logical p
    | .comparison => .comparand p
    | .membership => .members (.comparand p)
    | .element selector => .fixed selector.operandType
    | .container => .container p
    | .ignored => .keep
    | .unknown => .foreign key p
  else .location (index.resolve p key)

end Reading

namespace Plan

/-- A value compared with a scalar type. -/
def scalar (t : ScalarType) (v : Value) : Step :=
  if t.satisfies v then .keep
  else match v with
    | .object fs =>
      if fs.any fun f => isOperator f.1 then .fields (Reading.ofScalarOperand t) else .convert t
    | _ => .convert t

/-- A value read as a filter at a location, which only an object can be. -/
def conditions (index : Index) (p : FieldPath) : Value → Step
  | .object _ => .fields (Reading.ofCondition index p)
  | v => .reject (.ofShape v objectName)

/-- The operand of a location that is not an array. -/
def atRest (index : Index) (p : FieldPath) (v : Value) : Step :=
  match index.lookup p.schema with
  | .undeclared | .untyped | .array => .keep
  | .object => conditions index p v
  | .scalar t => scalar t v

/-- The operand of the array at a location. -/
def array (index : Index) (p : FieldPath) (v : Value) : Plan :=
  if isForeignObject v then keep
  else if isOperatorObject v then ⟨0, conditions index p v⟩
  else match v with
    | .array _ => ⟨0, .items fun i => .location (p.child (.index i))⟩
    | v =>
      let (n, q) := index.operandLanding p
      ⟨n, atRest index q v⟩

/-- The operand of the field at a location. -/
def location (index : Index) (p : FieldPath) (v : Value) : Plan :=
  match v with
  | .null => keep
  | v => if (index.lookup p.schema).isArray then array index p v else ⟨0, atRest index p v⟩

/-- A value compared with the field at a location. -/
def comparand (index : Index) (p : FieldPath) (v : Value) : Plan :=
  if (index.lookup p.schema).isArray then
    match v with
    | .null => keep
    | .array xs => location index p (.array xs)
    | v =>
      if isForeignObject v then keep
      else if isOperatorObject v then ⟨0, conditions index p v⟩
      else location index p.element v
  else location index p v

/-- One of the sub-filters at a location. -/
def subfilter (index : Index) (p : FieldPath) (i : Nat) (v : Value) : Plan :=
  if p.isRoot then ⟨0, conditions index p v⟩
  else if (index.lookup p.schema).isArray then
    if isOperatorObject v then ⟨0, conditions index p v⟩
    else if v.isArray then comparand index p v
    else location index (p.child (.index i)) v
  else location index p v

/-- A value matched against the items of the array at a location. -/
def container (index : Index) (p : FieldPath) (v : Value) : Step :=
  match index.lookup p.element.schema with
  | .array | .object => conditions index p.element v
  | .scalar t => scalar t v
  | .undeclared | .untyped => .keep

end Plan

/-- What happens to a value in a reading. -/
def Reading.plan (index : Index) : Reading → Value → Plan
  | .keep, _ | .foreign _ _, _ => .keep
  | .fixed t, _ => ⟨0, .convert t⟩
  | .scalar t, v => ⟨0, Plan.scalar t v⟩
  | .location p, v => Plan.location index p v
  | .comparand p, v => Plan.comparand index p v
  | .members item, v =>
    match v with
    | .null => .keep
    | .array _ => ⟨0, .items fun _ => item⟩
    | v => (item.plan index v).wrapped 1
  | .logical p, v =>
    match v with
    | .array _ => ⟨0, .items (.subfilter p)⟩
    | v => (Plan.subfilter index p 0 v).wrapped 1
  | .subfilter p i, v => Plan.subfilter index p i v
  | .container p, v => ⟨0, Plan.container index p v⟩

end TypedDocs
