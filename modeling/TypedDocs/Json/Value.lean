import TypedDocs.Number.Basic

/-!
# Document values

A `Value` is what a document, a filter, an update and a definition are made of.
The fields of an object keep the order they were written in. The recursion over
values is always the same three functions: one for a value, one for the items of
an array, one for the fields of an object.
-/

namespace TypedDocs

inductive Value where
  | null
  | bool (b : Bool)
  | number (n : Number)
  | string (s : String)
  | array (items : List Value)
  | object (fields : List (String × Value))

/-- The fields of an object in their written order. -/
abbrev Fields := List (String × Value)

namespace Value

instance : Inhabited Value := ⟨.null⟩

mutual
/-- Equality of values, decided. -/
def decEq : (a b : Value) → Decidable (a = b)
  | .null, .null => .isTrue rfl
  | .bool a, .bool b =>
    if h : a = b then .isTrue (h ▸ rfl) else .isFalse (by simp [h])
  | .number a, .number b =>
    if h : a = b then .isTrue (h ▸ rfl) else .isFalse (by simp [h])
  | .string a, .string b =>
    if h : a = b then .isTrue (h ▸ rfl) else .isFalse (by simp [h])
  | .array a, .array b => match decEqItems a b with
    | .isTrue h => .isTrue (h ▸ rfl)
    | .isFalse h => .isFalse (by simp [h])
  | .object a, .object b => match decEqFields a b with
    | .isTrue h => .isTrue (h ▸ rfl)
    | .isFalse h => .isFalse (by simp [h])
  | .null, .bool _ | .null, .number _ | .null, .string _ | .null, .array _ | .null, .object _
  | .bool _, .null | .bool _, .number _ | .bool _, .string _ | .bool _, .array _
  | .bool _, .object _
  | .number _, .null | .number _, .bool _ | .number _, .string _ | .number _, .array _
  | .number _, .object _
  | .string _, .null | .string _, .bool _ | .string _, .number _ | .string _, .array _
  | .string _, .object _
  | .array _, .null | .array _, .bool _ | .array _, .number _ | .array _, .string _
  | .array _, .object _
  | .object _, .null | .object _, .bool _ | .object _, .number _ | .object _, .string _
  | .object _, .array _ => .isFalse (by simp)
/-- Equality of item lists, decided. -/
def decEqItems : (a b : List Value) → Decidable (a = b)
  | [], [] => .isTrue rfl
  | [], _ :: _ | _ :: _, [] => .isFalse (by simp)
  | x :: xs, y :: ys => match decEq x y, decEqItems xs ys with
    | .isTrue h, .isTrue h' => .isTrue (h ▸ h' ▸ rfl)
    | .isFalse h, _ => .isFalse (by simp [h])
    | _, .isFalse h => .isFalse (by simp [h])
/-- Equality of field lists, decided. -/
def decEqFields : (a b : List (String × Value)) → Decidable (a = b)
  | [], [] => .isTrue rfl
  | [], _ :: _ | _ :: _, [] => .isFalse (by simp)
  | (j, x) :: xs, (k, y) :: ys =>
    if hk : j = k then
      match decEq x y, decEqFields xs ys with
      | .isTrue h, .isTrue h' => .isTrue (hk ▸ h ▸ h' ▸ rfl)
      | .isFalse h, _ => .isFalse (by simp [h])
      | _, .isFalse h => .isFalse (by simp [h])
    else .isFalse (by simp [hk])
end

instance : DecidableEq Value := decEq

def isNull : Value → Bool
  | .null => true
  | _ => false

def isBool : Value → Bool
  | .bool _ => true
  | _ => false

def isNumber : Value → Bool
  | .number _ => true
  | _ => false

def isString : Value → Bool
  | .string _ => true
  | _ => false

def isArray : Value → Bool
  | .array _ => true
  | _ => false

def isObject : Value → Bool
  | .object _ => true
  | _ => false

/-- A value as the list of items it stands for where an array is expected. -/
def promoted : Value → List Value
  | .array items => items
  | v => [v]

/-- Wraps a value in `n` arrays of one item. -/
def wrap : Nat → Value → Value
  | 0, v => v
  | n + 1, v => .array [wrap n v]

end Value

namespace Fields

/-- The value of the first field of that name. -/
def get? (fields : Fields) (key : String) : Option Value :=
  match fields with
  | [] => none
  | (k, v) :: rest => if k = key then some v else get? rest key

def contains (fields : Fields) (key : String) : Bool := fields.any (·.1 = key)

/-- Sets a field: a name already there keeps its place, a new one comes last. -/
def assign (fields : Fields) (key : String) (value : Value) : Fields :=
  match fields with
  | [] => [(key, value)]
  | (k, v) :: rest => if k = key then (k, value) :: rest else (k, v) :: assign rest key value

/-- Sets fields one after the other, so each name keeps its first place and its last value. -/
def ofMembers (members : List (String × Value)) : Fields :=
  members.foldl (fun fields m => fields.assign m.1 m.2) []

end Fields

/-- The value of the only field of an object, if it has that name. -/
def Value.onlyField? (v : Value) (key : String) : Option Value :=
  match v with
  | .object [(k, inner)] => if k = key then some inner else none
  | _ => none

end TypedDocs
