import TypedDocs.Document
import TypedDocs.Filter.Cast

/-!
# Casting updates

An update is an object of operators, an object of fields, or a pipeline. A pipeline
is not touched. Fields are cast as a document would cast them, under dotted names,
and set unless the update replaces the whole document. Each known operator casts
its operand in its own way, after names that are not declared have been dropped.
The first failure ends the cast.
-/

namespace TypedDocs

structure UpdateOptions where
  /-- An object of fields replaces the document instead of setting fields. -/
  overwrite : Bool := false
deriving DecidableEq

namespace Update

/-- The key under which several items are appended. -/
def eachKey : String := "$each"

def resolve (index : Index) (key : String) : FieldPath := index.resolve .root key

/-- Whether an operand keeps a name: it is declared and, if asked, not a null object. -/
def keepsName (index : Index) (dropNullObjects : Bool) (key : String) (v : Value) : Bool :=
  match index.lookup (resolve index key).schema with
  | .undeclared => false
  | .object => !(dropNullObjects && v.isNull)
  | _ => true

/-- The names an operand keeps. -/
def prune (index : Index) (dropNullObjects : Bool) (fields : Fields) : Fields :=
  fields.filter fun f => keepsName index dropNullObjects f.1 f.2

/-- Casts the value at a location as a document cast that stops at the first failure. -/
def castField (index : Index) (p : FieldPath) (v : Value) : Except CastError Value :=
  (Walker.field ⟨index, true, .failFast⟩ p v).toExcept

/-- Casts each field by a function of its name, in order, up to the first failure. -/
def castEach (f : String → Value → Except CastError Value) : Fields → Except CastError Fields
  | [] => .ok []
  | (key, v) :: rest => do
    let w ← f key v
    let rest ← castEach f rest
    .ok ((key, w) :: rest)

/-- Values of fields under dotted names. -/
def castFields (index : Index) (fields : Fields) : Except CastError Fields :=
  castEach (fun key v => castField index (resolve index key) v) (prune index true fields)

/-- A list of items to append, each cast as an item; a single value stands for a list of one. -/
def castItems (index : Index) (element : FieldPath) (v : Value) : Except CastError Value :=
  (v.promoted.mapM (castField index element)).map .array

/-- What is appended to the array at a location: one item, or several under the key for that. -/
def castAppended (index : Index) (p : FieldPath) (v : Value) : Except CastError Value :=
  if (index.lookup p.schema).isArray then
    match v with
    | .object modifiers =>
      match Fields.get? modifiers eachKey with
      | some items => do
        let items ← castItems index p.element items
        .ok (.object (Fields.assign modifiers eachKey items))
      | none => castField index p.element v
    | v => castField index p.element v
  else .ok v

/-- The operand of a known operator. -/
def castOperand (index : Index) (category : UpdateOperator) (fields : Fields) :
    Except CastError Fields :=
  match category with
  | .fields | .pullAll => castFields index fields
  | .append =>
    castEach (fun key v => castAppended index (resolve index key) v) (prune index false fields)
  | .pull =>
    castEach (fun key v => (Reading.comparand (resolve index key)).cast index v)
      (prune index false fields)
  | .pop => castEach (fun _ v => ScalarType.number.coerce v) (prune index false fields)
  | .pathsOnly => .ok (prune index false fields)
  | .unknown => .ok fields

/-- An operator with its operand. -/
def castOperator (index : Index) (name : String) (operand : Value) : Except CastError Value :=
  match UpdateOperator.ofName name, operand with
  | .unknown, v => .ok v
  | category, .object fields => (castOperand index category fields).map .object
  | _, v => .error (.ofShape v objectName)

/-- Casts an update. -/
def cast (index : Index) (options : UpdateOptions) : Value → Except CastError Value
  | .array stages => .ok (.array stages)
  | .object fields =>
    match fields.find? (isOperator ·.1), fields.find? (!isOperator ·.1) with
    | some (operator, _), some (field, _) => .error (.mixedUpdate operator field)
    | some _, none => (castEach (castOperator index) fields).map .object
    | none, some _ => do
      let cast ← castFields index fields
      if options.overwrite then .ok (.object cast)
      else .ok (.object [("$set", .object cast)])
    | none, none => .ok (.object fields)
  | v => .error (.ofShape v objectName)

end Update

end TypedDocs
