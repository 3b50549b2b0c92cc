import TypedDocs.Text.Parts

/-!
# Paths

A position in a value has two dotted keys. The schema key looks the position up
in an index; there every array level is the wildcard. The instance key says where
the position is in one document, with the array indices as they are; only reports
use it.
-/

namespace TypedDocs

/-- The segment that stands for any item of an array. -/
def wildcard : String := "$"

/-- One step down from a position. -/
inductive Segment where
  | key (name : String)
  | index (n : Nat)
deriving DecidableEq

/-- A key one segment longer; the root has the empty key. -/
def join (base segment : String) : String :=
  if base.isEmpty then segment else base ++ "." ++ segment

def Segment.schemaText : Segment → String
  | .key name => name
  | .index _ => wildcard

def Segment.instanceText : Segment → String
  | .key name => name
  | .index n => toString n

def schemaKey (base : String) (s : Segment) : String := join base s.schemaText

def instanceKey (base : String) (s : Segment) : String := join base s.instanceText

/-- The segments of a dotted key, empty ones included. -/
def segmentsOf (dotted : String) : List String := (partsAt '.' dotted.toList).map String.ofList

/-- A dotted key without its last segment, and that segment. Keys without a point have no parent. -/
def parentOf? (dotted : String) : Option (String × String) :=
  match (segmentsOf dotted).reverse with
  | last :: before :: rest => some (String.intercalate "." (before :: rest).reverse, last)
  | _ => none

/--
Segments that address items of an array: the wildcard, an index, and the forms `$[]` and
`$[name]` of updates.
-/
def isPositional (segment : String) : Bool :=
  let cs := segment.toList
  segment = wildcard
    || ((['$', '['] : List Char).isPrefixOf cs && cs.getLast? = some ']')
    || (!cs.isEmpty && cs.all fun c => '0' ≤ c && c ≤ '9')

/-- The two keys of one position. -/
structure FieldPath where
  schema : String
  instanceKey : String
deriving DecidableEq

namespace FieldPath

def root : FieldPath := ⟨"", ""⟩

def isRoot (p : FieldPath) : Bool := p.instanceKey.isEmpty && p.schema.isEmpty

def child (p : FieldPath) (s : Segment) : FieldPath :=
  ⟨schemaKey p.schema s, TypedDocs.instanceKey p.instanceKey s⟩

/-- Any item of the array at a position, where no index is known. -/
def element (p : FieldPath) : FieldPath := ⟨join p.schema wildcard, join p.instanceKey wildcard⟩

/-- An item addressed by a positional segment, which the instance key keeps as written. -/
def positional (p : FieldPath) (segment : String) : FieldPath :=
  ⟨join p.schema wildcard, join p.instanceKey segment⟩

/-- Any item of the array at a position, reached without a segment being written. -/
def implicitElement (p : FieldPath) : FieldPath := ⟨join p.schema wildcard, p.instanceKey⟩

/-- One written segment further down. -/
def step (p : FieldPath) (segment : String) : FieldPath :=
  if isPositional segment then p.positional segment else p.child (.key segment)

/-- Reads a dotted instance key from the root; empty segments are dropped. -/
def parse (dotted : String) : FieldPath :=
  ((segmentsOf dotted).filter (!·.isEmpty)).foldl step root

end FieldPath

end TypedDocs
