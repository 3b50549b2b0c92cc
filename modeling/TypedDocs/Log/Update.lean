import TypedDocs.Update
import TypedDocs.Log.Document
import TypedDocs.Log.Filter

/-!
# Events of update casts

An update cast tells of operators that it does not know and of names it drops, and
of what happens inside the values it casts, in order. After the first failure nothing
more is told.
-/

namespace TypedDocs.Update

/-- The events of the names that an operand does not keep. -/
def pruneEvents (index : Index) (dropNullObjects : Bool) (fields : Fields) : List Event :=
  fields.filterMap fun f =>
    let p := resolve index f.1
    match index.lookup p.schema with
    | .undeclared => some (.prunedName f.1 p.schema)
    | .object => if dropNullObjects && f.2.isNull then some (.removedNullName f.1) else none
    | _ => none

/-- The events of casting a value at a location. -/
def fieldEvents (index : Index) (p : FieldPath) (v : Value) : List Event :=
  Walker.fieldEvents ⟨index, true, .failFast⟩ p v

/-- The events of casts one after the other, up to the first one that fails. -/
def eventsOfEach {α : Type} (events : α → List Event) (cast : α → Except CastError Value) :
    List α → List Event
  | [] => []
  | x :: xs =>
    events x ++ match cast x with
      | .ok _ => eventsOfEach events cast xs
      | .error _ => []

def fieldsEvents (index : Index) (fields : Fields) : List Event :=
  pruneEvents index true fields ++
    eventsOfEach (fun f => fieldEvents index (resolve index f.1) f.2)
      (fun f => castField index (resolve index f.1) f.2) (prune index true fields)

/-- The events of casting what is appended at a location. -/
def appendedEvents (index : Index) (p : FieldPath) (v : Value) : List Event :=
  if (index.lookup p.schema).isArray then
    match v with
    | .object modifiers =>
      match Fields.get? modifiers eachKey with
      | some items =>
        eventsOfEach (fieldEvents index p.element) (castField index p.element) items.promoted
      | none => fieldEvents index p.element v
    | v => fieldEvents index p.element v
  else []

/-- The events of casting the operand of a known operator. -/
def operandEvents (index : Index) (category : UpdateOperator) (fields : Fields) : List Event :=
  match category with
  | .fields | .pullAll => fieldsEvents index fields
  | .append =>
    pruneEvents index false fields ++
      eventsOfEach (fun f => appendedEvents index (resolve index f.1) f.2)
        (fun f => castAppended index (resolve index f.1) f.2) (prune index false fields)
  | .pull =>
    pruneEvents index false fields ++
      eventsOfEach (fun f => (Reading.comparand (resolve index f.1)).events index f.2)
        (fun f => (Reading.comparand (resolve index f.1)).cast index f.2)
        (prune index false fields)
  | .pop | .pathsOnly => pruneEvents index false fields
  | .unknown => []

/-- The events of an operator with its operand. -/
def operatorEvents (index : Index) (name : String) (operand : Value) : List Event :=
  match UpdateOperator.ofName name, operand with
  | .unknown, _ => [.unknownUpdateOperator name]
  | category, .object fields => operandEvents index category fields
  | _, _ => []

/-- The events of an update cast. -/
def events (index : Index) : Value → List Event
  | .array _ => [.pipeline]
  | .object fields =>
    match fields.find? (isOperator ·.1), fields.find? (!isOperator ·.1) with
    | some _, none =>
      eventsOfEach (fun f => operatorEvents index f.1 f.2)
        (fun f => castOperator index f.1 f.2) fields
    | none, some _ => fieldsEvents index fields
    | _, _ => []
  | _ => []

end TypedDocs.Update
