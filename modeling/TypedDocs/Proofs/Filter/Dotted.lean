import TypedDocs.Proofs.Filter.SchemaKey
import TypedDocs.Proofs.Schema.Canonical

/-!
# Dotted and nested conditions

A condition on a field of a field is written with a dotted key, or it stands inside the operand
of the outer field, below `$elemMatch` where that is an array. The dotted key passes the items of
arrays without naming them, the nested condition enters them one level at a time. Both come to
one schema key, so the operand is cast alike.
-/

namespace TypedDocs

open Reading

/-- The operands at a location that hold a condition on the field at the end of some names. -/
inductive Nesting (index : Index) : FieldPath → List String → (Value → Value) → Prop
  | here {p : FieldPath} : Nesting index p [] id
  | field {p : FieldPath} {name : String} {rest : List String} {nest : Value → Value} :
      index.lookup p.schema = .object → Nesting index (index.followSegment p name) rest nest →
      Nesting index p (name :: rest) fun v => .object [(name, nest v)]
  | items {p : FieldPath} {name : String} {rest : List String} {nest : Value → Value} :
      index.lookup p.schema = .array →
      index.lookup p.element.schema = .array ∨ index.lookup p.element.schema = .object →
      Nesting index (index.followSegment p name) rest nest →
      Nesting index p (name :: rest) fun v => .object [("$elemMatch", .object [(name, nest v)])]

section Names

variable {index : Index} {p : FieldPath} {name : String}

/-- A name below an array leads where the name below its items leads. -/
theorem followSegment_element_near (hname : isPositional name = false)
    (harray : index.lookup p.schema = .array)
    (helement : index.contains (join p.schema wildcard) = true) :
    (index.followSegment p.element name).Near (index.followSegment p name) := by
  have henters : index.entersItems p = true := by
    simp [Index.entersItems, harray, Lookup.isArray, helement]
  have hnear : p.element.Near p.implicitElement :=
    ⟨rfl, Definition.join_ne_empty (by decide)⟩
  have hpassed : index.followSegment p name = index.followSegment p.implicitElement name := by
    rw [Index.followSegment_named hname, Index.followSegment_named hname,
      Index.enterItems_of_enters henters]
  rw [hpassed]
  exact hnear.followSegment name

/-- A single condition on a field is cast at the field. -/
theorem castFields_condition (hname : Definition.IsFieldName name) {v : Value} :
    castFields index (ofCondition index p) [(name, v)] =
      ((location (index.followSegment p name)).cast index v).map fun u => [(name, u)] := by
  rw [castFields_singleton, ofCondition_field hname.plain, Index.resolve_undotted hname.undotted]

end Names

/-- Inside its nest, an operand is cast as at the end of the names. -/
theorem Nesting.cast {index : Index} {p : FieldPath} {names : List String} {nest : Value → Value}
    (h : Nesting index p names nest)
    (hnames : ∀ s ∈ names, Definition.IsFieldName s ∧ isPositional s = false) (v : Value) :
    (location p).cast index (nest v) =
      ((location (names.foldl index.followSegment p)).cast index v).map nest := by
  induction h with
  | here => exact (congrFun Except.map_id _).symm
  | @field p name rest nest hobject _ ih =>
    obtain ⟨hname, -⟩ := hnames name List.mem_cons_self
    rw [cast_location_object hobject, castFields_condition hname,
      ih fun s hs => hnames s (List.mem_cons_of_mem _ hs), Except.map_map, Except.map_map]
    rfl
  | @items p name rest nest harray helement _ ih =>
    obtain ⟨hname, hnotpositional⟩ := hnames name List.mem_cons_self
    have hcontains : index.contains (join p.schema wildcard) = true := by
      apply Index.contains_of_isTyped
      rcases helement with helement | helement
      · exact congrArg Lookup.isTyped helement
      · exact congrArg Lookup.isTyped helement
    have hnear := followSegment_element_near hnotpositional harray hcontains
    have hcondition : ofCondition index p "$elemMatch" = container p := rfl
    rw [cast_location_operators (by rw [harray]; rfl) rfl, castFields_singleton, hcondition,
      cast_container_conditions helement, castFields_condition hname,
      Near.cast (nest v) (.location hnear), ih fun s hs => hnames s (List.mem_cons_of_mem _ hs),
      Except.map_map, Except.map_map, Except.map_map, Except.map_map]
    rfl

namespace Filter

/-- A condition is cast alike under a dotted key and inside the operand of the first name: the
operand becomes the same in its place, or the error is the same. -/
theorem cast_dotted {index : Index} {first : String} {rest : List String} {nest : Value → Value}
    (hnames : ∀ s ∈ first :: rest, Definition.IsFieldName s ∧ isPositional s = false)
    (h : Nesting index (index.resolve .root first) rest nest) (v : Value) :
    let dotted := String.intercalate "." (first :: rest)
    ∃ r : Except CastError Value,
      cast index (.object [(dotted, v)]) = r.map (fun u => .object [(dotted, u)]) ∧
        cast index (.object [(first, nest v)]) = r.map fun u => .object [(first, nest u)] := by
  intro dotted
  have hundotted : ∀ s ∈ first :: rest, '.' ∉ s.toList := fun s hs => (hnames s hs).1.undotted
  obtain ⟨hfirst, -⟩ := hnames first List.mem_cons_self
  have hoperator : isOperator dotted = false := by
    rw [isOperator_of_segments (segmentsOf_intercalate (by simp) hundotted) hfirst.nonempty]
    exact hfirst.plain
  refine ⟨(location (index.resolve .root dotted)).cast index v, cast_single_field hoperator, ?_⟩
  rw [cast_single_field hfirst.plain,
    h.cast (fun s hs => hnames s (List.mem_cons_of_mem _ hs)),
    Index.resolve_intercalate _ _ fun s hs => hundotted s (List.mem_cons_of_mem _ hs),
    Except.map_map]

/-- A year of birth among members, below a dotted key and matched against one member: the text is
made a list of one number. -/
theorem cast_dotted_bands :
    let v : Value := .object [("$in", .string "1962")]
    let w : Value := .object [("$in", .array [.number (.integer 1962 (by decide))])]
    cast bands (.object [("members.born", v)]) = .ok (.object [("members.born", w)]) ∧
      cast bands (.object [("members", .object [("$elemMatch", .object [("born", v)])])]) =
        .ok (.object [("members", .object [("$elemMatch", .object [("born", w)])])]) := by
  intro v w
  have hmembers : bands.resolve .root "members" = FieldPath.root.child (.key "members") :=
    Index.resolve_name (by decide) (by decide) rfl
  have hnest : Nesting bands (bands.resolve .root "members") ["born"]
      fun u => .object [("$elemMatch", .object [("born", u)])] := by
    rw [hmembers]
    exact .items rfl (.inr rfl) .here
  have hnames : ∀ s ∈ ["members", "born"],
      Definition.IsFieldName s ∧ isPositional s = false := by
    intro s hs
    simp only [List.mem_cons, List.not_mem_nil, or_false] at hs
    rcases hs with rfl | rfl
    · exact ⟨⟨by decide, by decide, by decide⟩, by decide⟩
    · exact ⟨⟨by decide, by decide, by decide⟩, by decide⟩
  have hcast : cast bands (.object [("members.born", v)]) = .ok (.object [("members.born", w)]) :=
    Except.eq_ok_of_toOption (by decide +kernel)
  obtain ⟨r, hdotted, hnested⟩ := cast_dotted hnames hnest v
  obtain ⟨u, hu, heq⟩ := Except.map_eq_ok_iff.1 (hdotted.symm.trans hcast)
  cases heq
  refine ⟨hcast, hnested.trans ?_⟩
  rw [hu]
  rfl

end Filter

end TypedDocs
