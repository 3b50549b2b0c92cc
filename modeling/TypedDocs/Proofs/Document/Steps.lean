import TypedDocs.Proofs.Document.InstanceKeys
import TypedDocs.Proofs.Schema.FieldNames

/-!
# Steps into a document

Steps lead from a value to a part of it, and from the root to the location of the part. The
instance key of the location is read as the location again, if each step is one segment that
can be told from the others. Above a declared location each step goes through a container of
its own kind, so that the steps to it are such segments, unless the first one is an empty name.
-/

namespace TypedDocs

section Parts

/-- The value one step down. -/
def Value.step? : Value → Segment → Option Value
  | .object fs, .key name => Fields.get? fs name
  | .array xs, .index n => xs[n]?
  | _, _ => none

/-- The value that some steps lead to. -/
def Value.at? (v : Value) (steps : List Segment) : Option Value := steps.foldlM step? v

/-- The location that some steps lead to. -/
def FieldPath.follow (p : FieldPath) (steps : List Segment) : FieldPath :=
  steps.foldl child p

/-- A step that is one segment of an instance key, and is read from it as it is. -/
def Segment.IsPlain : Segment → Prop
  | .key name => name ≠ "" ∧ '.' ∉ name.toList ∧ isPositional name = false
  | .index _ => True

variable {v x : Value} {p : FieldPath} {s : Segment} {steps : List Segment}

namespace Value

theorem at?_cons : v.at? (s :: steps) = (v.step? s).bind (·.at? steps) := rfl

theorem at?_singleton : v.at? [s] = v.step? s := bind_pure _

/-- Steps go down by the fields of objects and by the items of arrays. -/
theorem step?_cases (h : v.step? s = some x) :
    (∃ fs name, v = .object fs ∧ s = .key name ∧ Fields.get? fs name = some x) ∨
      ∃ xs n, v = .array xs ∧ s = .index n ∧ xs[n]? = some x := by
  unfold step? at h
  split at h
  · exact .inl ⟨_, _, rfl, rfl, h⟩
  · exact .inr ⟨_, _, rfl, rfl, h⟩
  · cases h

theorem not_null_of_at? (h : v.at? steps = some x) (hx : x.isObject = true) :
    v.isNull = false := by
  cases v with
  | null =>
    cases steps with
    | nil =>
      cases h
      cases hx
    | cons s steps => cases h
  | _ => rfl

/-- A test that all objects pass is passed by those of a part. -/
theorem everyObject_of_at? {test : Fields → Bool} (h : everyObject test v = true)
    (hat : v.at? steps = some x) : everyObject test x = true := by
  induction steps generalizing v with
  | nil =>
    cases hat
    exact h
  | cons s steps ih =>
    obtain ⟨y, hy, hrest⟩ := Option.bind_eq_some_iff.1 hat
    refine ih ?_ hrest
    rcases step?_cases hy with ⟨fs, name, rfl, rfl, hget⟩ | ⟨xs, n, rfl, rfl, hget⟩
    · rw [everyObject, Bool.and_eq_true] at h
      exact everyObjectOfFields_iff.1 h.2 _ (Fields.mem_of_get? hget)
    · exact everyObjectOfItems_iff.1 h _ (List.mem_of_getElem? hget)

theorem undotted_of_at? (h : v.hasUndottedNames = true) (hat : v.at? steps = some x) :
    ∀ s ∈ steps, '.' ∉ s.schemaText.toList := by
  induction steps generalizing v with
  | nil => exact fun s hs => absurd hs List.not_mem_nil
  | cons s steps ih =>
    obtain ⟨y, hy, hrest⟩ := Option.bind_eq_some_iff.1 hat
    have hone : v.at? [s] = some y := at?_singleton.trans hy
    refine List.forall_mem_cons.2 ⟨?_, ih (everyObject_of_at? h hone) hrest⟩
    rcases step?_cases hy with ⟨fs, name, rfl, rfl, hget⟩ | ⟨xs, n, rfl, rfl, -⟩
    · simp only [hasUndottedNames, everyObject, Fields.areUndotted, Bool.and_eq_true,
        List.all_eq_true] at h
      have hpoint : '.' ∉ name.toList := by simpa using h.1 _ (Fields.mem_of_get? hget)
      exact hpoint
    · exact wildcard_undotted

end Value

namespace Segment

theorem IsPlain.undotted (h : s.IsPlain) : '.' ∉ s.instanceText.toList := by
  cases s with
  | key name => exact h.2.1
  | index n => exact undotted_toString n

theorem IsPlain.nonempty (h : s.IsPlain) : s.instanceText ≠ "" := by
  cases s with
  | key name => exact h.1
  | index n => exact toString_ne_empty n

theorem IsPlain.schema_nonempty (h : s.IsPlain) : s.schemaText ≠ "" := by
  cases s with
  | key name => exact h.1
  | index n => exact (by decide : wildcard ≠ "")

theorem IsPlain.schema_undotted (h : s.IsPlain) : '.' ∉ s.schemaText.toList := by
  cases s with
  | key name => exact h.2.1
  | index n => exact wildcard_undotted

end Segment

theorem isNumeral_toString (n : Nat) : isNumeral (toString n) = true := by
  have hdigits : ∀ c ∈ (toString n).toList, c.isDigit = true := by
    intro c hc
    rw [Nat.toString_eq_ofList_toDigits, String.toList_ofList] at hc
    exact Nat.isDigit_of_mem_toDigits (by decide) (by decide) hc
  rw [isNumeral, Bool.and_eq_true, List.all_eq_true]
  exact ⟨by simp, hdigits⟩

namespace FieldPath

theorem step_instanceText (h : s.IsPlain) : p.step s.instanceText = p.child s := by
  cases s with
  | key name => exact if_neg (by simp [Segment.instanceText, h.2.2])
  | index n => exact if_pos (isPositional_of_isNumeral (isNumeral_toString n))

/-- The instance key of a location is read as that location. -/
theorem parse_child (hp : parse p.instanceKey = p) (h : s.IsPlain) :
    parse (p.child s).instanceKey = p.child s := by
  have hstep : parse (join p.instanceKey s.instanceText) =
      (parse p.instanceKey).step s.instanceText := by
    by_cases hbase : p.instanceKey = ""
    · have hjoin : join p.instanceKey s.instanceText = s.instanceText := by rw [hbase]; rfl
      have hkept : [s.instanceText].filter (!·.isEmpty) = [s.instanceText] := by
        simp [h.nonempty]
      rw [hjoin, hbase, parse, segmentsOf_of_undotted h.undotted, hkept]
      rfl
    · exact parse_join hbase h.undotted h.nonempty
  have hkey : (p.child s).instanceKey = join p.instanceKey s.instanceText := rfl
  rw [hkey, hstep, hp, step_instanceText h]

theorem parse_follow (hp : parse p.instanceKey = p) (h : ∀ s ∈ steps, s.IsPlain) :
    parse (p.follow steps).instanceKey = p.follow steps := by
  induction steps generalizing p with
  | nil => exact hp
  | cons s steps ih =>
    exact ih (parse_child hp (h s List.mem_cons_self)) fun t ht => h t (List.mem_cons_of_mem _ ht)

theorem liesBelow_follow (h : ∀ s ∈ steps, s.IsPlain) {path : String}
    (hpath : LiesBelow (p.follow steps).instanceKey path) : LiesBelow p.instanceKey path := by
  induction steps generalizing p with
  | nil => exact hpath
  | cons s steps ih =>
    have hs := h s List.mem_cons_self
    have hchild : LiesBelow (join p.instanceKey s.instanceText) path :=
      ih (p := p.child s) (fun t ht => h t (List.mem_cons_of_mem _ ht)) hpath
    exact hchild.up hs.undotted hs.nonempty

theorem follow_schema : (p.follow steps).schema =
    (steps.map Segment.schemaText).foldl join p.schema := by
  induction steps generalizing p with
  | nil => rfl
  | cons s steps ih => exact ih

theorem follow_instanceKey_ne_empty (hne : steps ≠ []) (h : ∀ s ∈ steps, s.IsPlain) :
    (p.follow steps).instanceKey ≠ "" := by
  induction steps generalizing p with
  | nil => exact absurd rfl hne
  | cons s steps ih =>
    cases steps with
    | nil => exact Definition.join_ne_empty (h s List.mem_cons_self).nonempty
    | cons t steps => exact ih (by simp) fun r hr => h r (List.mem_cons_of_mem _ hr)

end FieldPath

/-- At or below a key is that key, and what goes on from it with a point. -/
theorem liesBelow_iff {base path : String} (hbase : base ≠ "") :
    LiesBelow base path ↔ path = base ∨ ∃ rest, path = base ++ "." ++ rest := by
  have hkey : keySegments base = segmentsOf base := if_neg (by simp [hbase])
  constructor
  · rintro ⟨more, hmore⟩
    rw [hkey] at hmore
    have hpath : keySegments path = segmentsOf path := by
      refine if_neg fun hempty => ?_
      obtain ⟨first, rest, hsegments⟩ := exists_segments base
      rw [keySegments, if_pos hempty, hsegments] at hmore
      cases hmore
    rw [hpath] at hmore
    -- The path is written again from its segments, the first of which are those of the base.
    have htext := intercalate_segmentsOf path
    rw [← hmore] at htext
    cases more with
    | nil => exact .inl (by rw [← htext, List.append_nil, intercalate_segmentsOf])
    | cons s more =>
      have hundotted : ∀ t ∈ s :: more, '.' ∉ t.toList := fun t ht =>
        undotted_of_mem_segmentsOf (hmore ▸ List.mem_append_right _ ht)
      refine .inr ⟨String.intercalate "." (s :: more), ?_⟩
      rw [← htext, ← intercalate_segmentsOf (base ++ "." ++ _), segmentsOf_append,
        segmentsOf_intercalate (by simp) hundotted]
  · rintro (rfl | ⟨rest, rfl⟩)
    · exact liesBelow_self _
    · have hpath : keySegments (base ++ "." ++ rest) = segmentsOf (base ++ "." ++ rest) :=
        if_neg (by simp)
      rw [LiesBelow, hkey, hpath, segmentsOf_append]
      exact List.prefix_append _ _

end Parts

namespace Index

variable {index : Index} {d : Declarations} {p : FieldPath} {s : Segment} {steps : List Segment}

/-- Above a declared location there is the container that the next step asks for. -/
theorem lookup_of_follow (hbuild : build d = .ok index) (hp : p.schema ≠ "")
    (hs : ∀ t ∈ s :: steps, t.IsPlain)
    (h : index.contains (p.follow (s :: steps)).schema = true) :
    index.contains (p.child s).schema = true ∧
      index.lookup p.schema = if s.schemaText = wildcard then .array else .object := by
  have hplain := (hs s List.mem_cons_self).schema_undotted
  have hchild : index.contains (join p.schema s.schemaText) = true := by
    rw [FieldPath.follow_schema, List.map_cons, List.foldl_cons] at h
    refine contains_of_foldl_join hbuild (join_base_ne_empty hp) (fun t ht => ?_) h
    obtain ⟨r, hr, rfl⟩ := List.mem_map.1 ht
    exact (hs r (List.mem_cons_of_mem _ hr)).schema_undotted
  exact ⟨hchild, lookup_parent_of_build hbuild hp hplain hchild⟩

/-- On the way to an object there are containers only. -/
theorem isTyped_of_follow (hbuild : build d = .ok index) (hp : p.schema ≠ "")
    (hs : ∀ t ∈ steps, t.IsPlain) (h : index.lookup (p.follow steps).schema = .object) :
    (index.lookup p.schema).isTyped = true := by
  cases steps with
  | nil =>
    have hhere : index.lookup p.schema = .object := h
    rw [hhere]
    rfl
  | cons s steps =>
    rw [(lookup_of_follow hbuild hp hs (contains_of_lookup h rfl)).2]
    split <;> rfl

end Index

/-- No object is declared at the root. -/
theorem Definition.ne_nil_of_follow {registry : Registry} {options : CompileOptions}
    {definition : Value} {index : Index} (h : compile registry options definition = .ok index)
    {steps : List Segment}
    (hobject : index.lookup (FieldPath.root.follow steps).schema = .object) : steps ≠ [] := by
  rintro rfl
  have hroot : index.lookup "" = .object := hobject
  rw [lookup_empty_of_compile h] at hroot
  cases hroot

/-- The names on the way to a declared location are not empty, if the first one is not. -/
theorem Definition.isPlain_of_declared {registry : Registry} {options : CompileOptions}
    {definition : Value} {index : Index} (h : compile registry options definition = .ok index)
    {steps : List Segment} (hfirst : steps.head? ≠ some (.key ""))
    (hundotted : ∀ s ∈ steps, '.' ∉ s.schemaText.toList)
    (hnames : ∀ name, .key name ∈ steps → isPositional name = false)
    (hcontains : index.contains (FieldPath.root.follow steps).schema = true) :
    ∀ s ∈ steps, s.IsPlain := by
  cases steps with
  | nil => exact fun s hs => absurd hs List.not_mem_nil
  | cons first rest =>
    have hne : first.schemaText ≠ "" := by
      cases first with
      | key name =>
        rintro rfl
        exact hfirst rfl
      | index n => exact (by decide : wildcard ≠ "")
    have hschema : (FieldPath.root.follow (first :: rest)).schema =
        String.intercalate "." ((first :: rest).map Segment.schemaText) := by
      rw [FieldPath.follow_schema, List.map_cons, List.foldl_cons]
      exact foldl_join_below hne
    have hsegments : segmentsOf (FieldPath.root.follow (first :: rest)).schema =
        (first :: rest).map Segment.schemaText := by
      rw [hschema]
      refine segmentsOf_intercalate (by simp) fun t ht => ?_
      obtain ⟨s, hs, rfl⟩ := List.mem_map.1 ht
      exact hundotted s hs
    have hnonempty := (declaredPath_of_contains h hcontains).segments_ne_empty
    intro s hs
    cases s with
    | key name =>
      have hmem : name ∈ (first :: rest).map Segment.schemaText := List.mem_map.2 ⟨_, hs, rfl⟩
      exact ⟨hnonempty name (hsegments ▸ hmem), hundotted _ hs, hnames name hs⟩
    | index n => trivial

end TypedDocs
