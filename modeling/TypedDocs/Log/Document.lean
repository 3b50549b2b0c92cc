import TypedDocs.Document
import TypedDocs.Log.Event

/-!
# Events of document casts

The events of a walk in the order they happen. All fields that an object does not
keep are told before anything below it, and after a failure that ends the walk
nothing more is told.
-/

namespace TypedDocs.Walker

/-- The event at an array location whose items are not cast. -/
def passing (w : Walker) (p : FieldPath) : List Event :=
  if (w.index.lookup p.schema).isArray && !w.index.hasTypedItems p.schema then [.untypedItems p]
  else []

/-- The events of the fields that an object at a location does not keep. -/
def pruneEvents (w : Walker) (p : FieldPath) (fields : Fields) : List Event :=
  fields.filterMap fun f =>
    let q := p.child (.key f.1)
    match w.index.lookup q.schema with
    | .undeclared => some (.prunedField q)
    | .object => if f.2.isNull then some (.removedNullField q) else none
    | _ => none

mutual
/-- The events of casting the value at a location. -/
def fieldEvents (w : Walker) (p : FieldPath) : Value → List Event
  | .null => w.passing p
  | .bool _ | .number _ | .string _ => w.passing (w.index.landing p).2
  | .array xs => if w.index.hasTypedItems p.schema then w.itemEvents p 0 xs else w.passing p
  | .object fs =>
    let q := (w.index.landing p).2
    match w.index.lookup q.schema with
    | .object => w.pruneEvents q fs ++ w.keptEvents q fs
    | _ => w.passing q
/-- The events of casting the items of an array from index `i` on. -/
def itemEvents (w : Walker) (p : FieldPath) (i : Nat) : List Value → List Event
  | [] => []
  | x :: xs =>
    let q := p.child (.index i)
    w.fieldEvents q x ++ if w.stops (w.field q x).failures then [] else w.itemEvents p (i + 1) xs
/-- The events of casting the fields that an object keeps. -/
def keptEvents (w : Walker) (p : FieldPath) : List (String × Value) → List Event
  | [] => []
  | (key, x) :: xs =>
    if w.index.keepsField p.schema key x then
      let q := p.child (.key key)
      w.fieldEvents q x ++ if w.stops (w.field q x).failures then [] else w.keptEvents p xs
    else w.keptEvents p xs
end

end TypedDocs.Walker

namespace TypedDocs.Document

/-- The events of a document cast. -/
def events (index : Index) (options : DocumentOptions) : Value → List Event
  | .object fs =>
    let w : Walker := ⟨index, options.coerce, options.policy⟩
    let p := FieldPath.parse options.location
    w.pruneEvents p fs ++ w.keptEvents p fs
  | _ => []

end TypedDocs.Document
