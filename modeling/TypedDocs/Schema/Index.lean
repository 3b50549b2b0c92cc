import TypedDocs.Path
import TypedDocs.Scalar.Registry
import TypedDocs.Schema.Error

/-!
# The index of declared paths

An index maps schema keys to declared types; a key may also be declared without a
type. Building one checks that every path of more than one segment hangs off a
declared container of the right kind. No declared key is longer than the reach of
the index, so every walk that only goes down along declared keys comes to an end.
-/

namespace TypedDocs

/-- Declarations by path; the last one of a path counts. `none` is a path without a type. -/
abbrev Declarations := Dictionary (Option DeclaredType)

structure Index where
  paths : Declarations

/-- What an index says about a schema key. -/
inductive Lookup where
  | undeclared
  | untyped
  | array
  | object
  | scalar (t : ScalarType)

namespace Lookup

def isArray : Lookup → Bool
  | array => true
  | _ => false

/-- Declared with a type. -/
def isTyped : Lookup → Bool
  | undeclared | untyped => false
  | _ => true

def isUndeclared : Lookup → Bool
  | undeclared => true
  | _ => false

end Lookup

/-- The declared type of a path, if it is declared with one. -/
def Declarations.typeOf? (d : Declarations) (path : String) : Option DeclaredType :=
  (d.get? path).join

namespace Index

/-- The container that the last segment of a path needs above it. -/
def requiredParent (last : String) : DeclaredType :=
  if last = wildcard then .array else .object

/-- The complaint about a path, if its parent is not what it has to be. -/
def orphan? (d : Declarations) (path : String) : Option SchemaError :=
  match parentOf? path with
  | none => none
  | some (parent, last) =>
    let required := requiredParent last
    if (d.typeOf? parent).any (· == required) then none
    else some (.orphanPath path parent required.name)

/-- The index of a set of declarations, if no path is an orphan. -/
def build (d : Declarations) : Except SchemaError Index :=
  match d.keys.findSome? (orphan? d) with
  | some e => .error e
  | none => .ok ⟨d⟩

def get? (index : Index) (key : String) : Option (Option DeclaredType) := index.paths.get? key

def contains (index : Index) (key : String) : Bool := index.paths.contains key

def lookup (index : Index) (key : String) : Lookup :=
  match index.get? key with
  | none => .undeclared
  | some none => .untyped
  | some (some .array) => .array
  | some (some .object) => .object
  | some (some (.scalar t)) => .scalar t

/-- The declared paths with their types, in ascending order. -/
def entries (index : Index) : List (String × Option DeclaredType) := index.paths.bindings

def size (index : Index) : Nat := index.paths.size

def isEmpty (index : Index) : Bool := index.paths.isEmpty

/-- The greatest length in a list of texts. -/
def greatestLength : List String → Nat
  | [] => 0
  | s :: rest => max s.length (greatestLength rest)

/-- No declared key is longer. -/
def reach (index : Index) : Nat := greatestLength index.paths.keys

theorem length_le_greatestLength {s : String} {l : List String} (h : s ∈ l) :
    s.length ≤ greatestLength l := by
  induction l with
  | nil => simp at h
  | cons t rest ih =>
    simp only [greatestLength]
    rcases List.mem_cons.1 h with rfl | h
    · omega
    · have := ih h
      omega

/-- A declared key lies within the reach of the index. -/
theorem length_le_reach {index : Index} {key : String} (h : index.contains key = true) :
    key.length ≤ index.reach := by
  obtain ⟨v, hv⟩ := Option.isSome_iff_exists.1 (show (index.paths.get? key).isSome = true from h)
  have hmem := Dictionary.mem_bindings_of_get? hv
  exact length_le_greatestLength (List.mem_map.2 ⟨_, hmem, rfl⟩)

theorem contains_iff {index : Index} {key : String} :
    index.contains key = true ↔ (index.lookup key).isUndeclared = false := by
  unfold contains Dictionary.contains lookup get?
  cases h : index.paths.get? key with
  | none => simp [Lookup.isUndeclared]
  | some t =>
    cases t with
    | none => simp [Lookup.isUndeclared]
    | some d => cases d <;> simp [Lookup.isUndeclared]

theorem contains_of_isTyped {index : Index} {key : String}
    (h : (index.lookup key).isTyped = true) : index.contains key = true := by
  rw [contains_iff]
  cases hl : index.lookup key <;> simp_all [Lookup.isTyped, Lookup.isUndeclared]

theorem length_lt_join_wildcard (key : String) : key.length < (join key wildcard).length := by
  unfold join
  split
  · rename_i h
    have : key = "" := String.isEmpty_iff.1 h
    subst this
    decide
  · have hw : wildcard.length = 1 := by decide
    have hd : (".").length = 1 := by decide
    rw [String.length_append, String.length_append, hw, hd]
    omega

end Index

end TypedDocs
