import TypedDocs.Schema.Index

/-!
# Casting documents

A document cast walks a value along the index. At an object location it drops the
fields that are not declared, and the null fields that are declared as objects. At
an array location with typed items it casts each item; a value that is not an
array becomes the only item of one. At a scalar location it coerces the value. A
location that cannot be cast keeps its value and is reported.

The walk goes down the value. Only promotion goes down the index without the value
getting smaller, and it does so ahead of the walk: `landing` finds how many arrays
a single value is wrapped in and where it comes to rest.
-/

namespace TypedDocs

/-- What a walk does after a failure. -/
inductive ErrorPolicy where
  /-- Report it and go on. -/
  | accumulate
  /-- Stop there. -/
  | failFast
deriving DecidableEq

structure DocumentOptions where
  policy : ErrorPolicy := .accumulate
  /-- Convert leaves; otherwise only the structure is put in order. -/
  coerce : Bool := true
  /-- Instance key of the document inside a larger one. -/
  location : String := ""
deriving DecidableEq

/-- A failure and the instance key of its location. -/
abbrev Failure := String × CastError

/-- A value after a walk, and the failures in the order they were met. -/
structure Walked (α : Type) where
  value : α
  failures : List Failure
deriving DecidableEq

namespace Walked

variable {α β : Type}

def clean (value : α) : Walked α := ⟨value, []⟩

def failed (p : FieldPath) (error : CastError) (value : α) : Walked α :=
  ⟨value, [(p.instanceKey, error)]⟩

def map (f : α → β) (w : Walked α) : Walked β := ⟨f w.value, w.failures⟩

/-- The value if nothing failed, and the first error otherwise. -/
def toExcept (w : Walked α) : Except CastError α :=
  match w.failures with
  | [] => .ok w.value
  | (_, e) :: _ => .error e

end Walked

namespace Index

/-- An array location whose items are declared with a type. -/
def hasTypedItems (index : Index) (key : String) : Bool :=
  (index.lookup key).isArray && (index.lookup (join key wildcard)).isTyped

/--
Where a single value assigned to a location comes to rest, and how many arrays it is wrapped in
on the way: one for each array location with typed items.
-/
def landing (index : Index) (p : FieldPath) : Nat × FieldPath :=
  if _h : index.hasTypedItems p.schema then
    let (n, q) := index.landing (p.child (.index 0))
    (n + 1, q)
  else (0, p)
termination_by index.reach + 1 - p.schema.length
decreasing_by
  simp only [hasTypedItems, Bool.and_eq_true] at _h
  have hreach := length_le_reach (contains_of_isTyped _h.2)
  have hlt := length_lt_join_wildcard p.schema
  simp only [FieldPath.child, schemaKey, Segment.schemaText]
  omega

/-- Whether an object at `base` keeps a field: it is declared, and not a null object. -/
def keepsField (index : Index) (base key : String) (v : Value) : Bool :=
  match index.lookup (join base key) with
  | .undeclared => false
  | .object => !v.isNull
  | _ => true

/-- The fields that an object at `base` keeps. -/
def prune (index : Index) (base : String) (fields : Fields) : Fields :=
  fields.filter fun f => index.keepsField base f.1 f.2

end Index

/-- An index with the way to walk along it. -/
structure Walker where
  index : Index
  coerce : Bool
  policy : ErrorPolicy

namespace Walker

/-- Whether a walk ends after these failures. -/
def stops (w : Walker) (failures : List Failure) : Bool :=
  w.policy = .failFast && !failures.isEmpty

/-- A leaf of a declared type. -/
def leaf (w : Walker) (t : ScalarType) (p : FieldPath) (v : Value) : Walked Value :=
  if w.coerce then
    match t.coerce v with
    | .ok converted => .clean converted
    | .error e => .failed p e v
  else .clean v

/-- A value that is neither null nor a container, where it comes to rest. -/
def atom (w : Walker) (p : FieldPath) (v : Value) : Walked Value :=
  match w.index.lookup p.schema with
  | .object => .failed p (.ofShape v objectName) v
  | .scalar t => w.leaf t p v
  | _ => .clean v

mutual
/-- Casts the value at a location. -/
def field (w : Walker) (p : FieldPath) : Value → Walked Value
  | .null => .clean .null
  | .bool b =>
    let (n, q) := w.index.landing p
    (w.atom q (.bool b)).map (Value.wrap n)
  | .number x =>
    let (n, q) := w.index.landing p
    (w.atom q (.number x)).map (Value.wrap n)
  | .string s =>
    let (n, q) := w.index.landing p
    (w.atom q (.string s)).map (Value.wrap n)
  | .array xs =>
    if w.index.hasTypedItems p.schema then (w.items p 0 xs).map .array
    else w.atom p (.array xs)
  | .object fs =>
    let (n, q) := w.index.landing p
    match w.index.lookup q.schema with
    | .object => (w.fields q fs).map fun fs => Value.wrap n (.object fs)
    | _ => (w.atom q (.object fs)).map (Value.wrap n)
/-- Casts the items of an array from index `i` on. -/
def items (w : Walker) (p : FieldPath) (i : Nat) : List Value → Walked (List Value)
  | [] => .clean []
  | x :: xs =>
    let head := w.field (p.child (.index i)) x
    if w.stops head.failures then ⟨head.value :: xs, head.failures⟩
    else
      let tail := w.items p (i + 1) xs
      ⟨head.value :: tail.value, head.failures ++ tail.failures⟩
/-- Casts the fields that an object at a location keeps. -/
def fields (w : Walker) (p : FieldPath) :
    List (String × Value) → Walked (List (String × Value))
  | [] => .clean []
  | (key, x) :: xs =>
    if w.index.keepsField p.schema key x then
      let head := w.field (p.child (.key key)) x
      if w.stops head.failures then
        ⟨(key, head.value) :: w.index.prune p.schema xs, head.failures⟩
      else
        let tail := w.fields p xs
        ⟨(key, head.value) :: tail.value, head.failures ++ tail.failures⟩
    else w.fields p xs
end

/-- Casts a value as an object at a location, whatever the index says about the location. -/
def object (w : Walker) (p : FieldPath) (v : Value) : Walked Value :=
  match v with
  | .object fs => (w.fields p fs).map .object
  | v => .failed p (.ofShape v objectName) v

end Walker

/-- The result of a document cast. A location that failed holds the value it had. -/
structure Outcome where
  value : Value
  errors : Option CastErrors
deriving DecidableEq

namespace Outcome

def isOk (o : Outcome) : Bool := o.errors.isNone

def toExcept (o : Outcome) : Except CastErrors Value :=
  match o.errors with
  | none => .ok o.value
  | some errors => .error errors

end Outcome

namespace Document

/-- The walk of a whole document. -/
def walk (index : Index) (options : DocumentOptions) (v : Value) : Walked Value :=
  Walker.object ⟨index, options.coerce, options.policy⟩ (FieldPath.parse options.location) v

/-- Casts a document. -/
def cast (index : Index) (options : DocumentOptions) (v : Value) : Outcome :=
  let w := walk index options v
  ⟨w.value, (CastErrors.ofRows w.failures).toOption⟩

end Document

end TypedDocs
