import TypedDocs.Schema.Index

/-!
# Resolving dotted keys

A dotted key of a filter or an update is followed segment by segment below a
position. Positional segments go to the items of an array. A name that follows an
array goes to its items without being asked, as far as declared array levels reach;
only the schema key shows that, the instance key keeps what was written.
-/

namespace TypedDocs.Index

/-- Whether a name below this position means a field of its items. -/
def entersItems (index : Index) (p : FieldPath) : Bool :=
  (index.lookup p.schema).isArray && index.contains (join p.schema wildcard)

/-- Goes down through array levels to where a named field can be. -/
def enterItems (index : Index) (p : FieldPath) : FieldPath :=
  if _h : index.entersItems p then index.enterItems p.implicitElement else p
termination_by index.reach + 1 - p.schema.length
decreasing_by
  simp only [entersItems, Bool.and_eq_true] at _h
  have hreach := length_le_reach _h.2
  have hlt := length_lt_join_wildcard p.schema
  simp only [FieldPath.implicitElement]
  omega

/-- Follows one written segment. -/
def followSegment (index : Index) (p : FieldPath) (segment : String) : FieldPath :=
  if isPositional segment then p.positional segment
  else (index.enterItems p).child (.key segment)

/-- Follows a dotted key below a position. -/
def resolve (index : Index) (base : FieldPath) (key : String) : FieldPath :=
  (segmentsOf key).foldl index.followSegment base

end TypedDocs.Index
