import TypedDocs.Proofs.Schema.Segments

/-!
# Below a path without a type

In a built index every declared path hangs off a declared container. So nothing is
declared below a path without a type, and below an array whose items have no type at
most the items are. This is followed along written keys, along the names of fields and
along the locations of documents.
-/

namespace TypedDocs

/-- Declared as something with paths of its own below it. -/
def Lookup.isContainer : Lookup → Bool
  | .array | .object => true
  | _ => false

namespace Index

variable {index : Index} {d : Declarations}

/-- The paths that a walk of a document does not look into. -/
def IsOpen (index : Index) (u : String) : Prop :=
  index.lookup u = .untyped ∨
    (index.lookup u = .array ∧ (index.lookup (join u wildcard)).isTyped = false)

theorem lookup_of_not_contains {key : String} (h : index.contains key = false) :
    index.lookup key = .undeclared := by
  cases hl : index.lookup key with
  | undeclared => rfl
  | _ =>
    have hcontains : index.contains key = true := contains_iff.2 (by rw [hl]; rfl)
    rw [h] at hcontains
    cases hcontains

theorem IsOpen.ne_empty (hroot : index.lookup "" = .undeclared) {u : String}
    (h : index.IsOpen u) : u ≠ "" := by
  rintro rfl
  rcases h with huntyped | ⟨harray, -⟩
  · rw [hroot] at huntyped
    cases huntyped
  · rw [hroot] at harray
    cases harray

section Below

variable (hbuild : build d = .ok index)
include hbuild

/-- No path is declared below one that is no container. -/
theorem lookup_join_of_leaf {base s : String} (hbase : base ≠ "")
    (hleaf : (index.lookup base).isContainer = false) (hs : '.' ∉ s.toList) :
    index.lookup (join base s) = .undeclared := by
  cases hcontains : index.contains (join base s) with
  | false => exact lookup_of_not_contains hcontains
  | true =>
    rw [lookup_parent_of_build hbuild hbase hs hcontains] at hleaf
    split at hleaf <;> cases hleaf

/-- Nor is it any number of steps further down, however the steps are read. -/
theorem foldl_below_leaf {f : FieldPath → String → FieldPath} {p : FieldPath}
    {segments : List String}
    (hf : ∀ q s, (index.lookup q.schema).isContainer = false → '.' ∉ s.toList →
      ∃ t, '.' ∉ t.toList ∧ (f q s).schema = join q.schema t)
    (hp : p.schema ≠ "") (hleaf : (index.lookup p.schema).isContainer = false)
    (hundotted : ∀ s ∈ segments, '.' ∉ s.toList) (hsegments : segments ≠ []) :
    (segments.foldl f p).schema ≠ "" ∧
      index.lookup (segments.foldl f p).schema = .undeclared := by
  induction segments generalizing p with
  | nil => exact absurd rfl hsegments
  | cons s rest ih =>
    obtain ⟨t, ht, hstep⟩ := hf p s hleaf (hundotted s List.mem_cons_self)
    have hne : (f p s).schema ≠ "" := by
      rw [hstep]
      exact join_base_ne_empty hp
    have hundeclared : index.lookup (f p s).schema = .undeclared := by
      rw [hstep]
      exact lookup_join_of_leaf hbuild hp hleaf ht
    cases rest with
    | nil => exact ⟨hne, hundeclared⟩
    | cons r rest =>
      exact ih hne (by rw [hundeclared]; rfl) (fun q hq => hundotted q (List.mem_cons_of_mem _ hq))
        (by simp)

omit hbuild in
theorem schema_followSegment_of_leaf {p : FieldPath} {s : String}
    (hleaf : (index.lookup p.schema).isContainer = false) (hs : '.' ∉ s.toList) :
    ∃ t, '.' ∉ t.toList ∧ (index.followSegment p s).schema = join p.schema t := by
  cases hpositional : isPositional s with
  | true =>
    refine ⟨wildcard, wildcard_undotted, ?_⟩
    rw [followSegment_positional hpositional]
    rfl
  | false =>
    have hnot : (index.lookup p.schema).isArray = false := by
      cases hl : index.lookup p.schema with
      | array => rw [hl] at hleaf; cases hleaf
      | _ => rfl
    exact ⟨s, hs, by rw [followSegment_name hpositional hnot]; rfl⟩

omit hbuild in
theorem schema_step {p : FieldPath} {s : String} (hs : '.' ∉ s.toList) :
    ∃ t, '.' ∉ t.toList ∧ (p.step s).schema = join p.schema t := by
  unfold FieldPath.step
  split
  · exact ⟨wildcard, wildcard_undotted, rfl⟩
  · exact ⟨s, hs, rfl⟩

end Below

end Index

section Lookups

variable {index : Index} {d : Declarations} {u : String}

theorem Lookup.not_container_of_not_typed {l : Lookup} (h : l.isTyped = false) :
    l.isContainer = false := by
  cases l with
  | array => cases h
  | object => cases h
  | _ => rfl

theorem Index.IsOpen.item (h : index.IsOpen u)
    (hitem : index.contains (join u wildcard) = true) (hbuild : Index.build d = .ok index)
    (hu : u ≠ "") : index.lookup (join u wildcard) = .untyped := by
  rcases h with huntyped | ⟨-, hitems⟩
  · have hnone := Index.lookup_join_of_leaf hbuild hu (by rw [huntyped]; rfl) wildcard_undotted
    rw [Index.contains_iff, hnone] at hitem
    cases hitem
  · cases hl : index.lookup (join u wildcard) with
    | untyped => rfl
    | undeclared => rw [Index.contains_iff, hl] at hitem; cases hitem
    | _ => rw [hl] at hitems; cases hitems

/-- Of the keys that go on below an open path, only that of an item can be declared. -/
theorem Index.lookup_resolve_below (hbuild : Index.build d = .ok index)
    (hroot : index.lookup "" = .undeclared) {base rest : String}
    (hopen : index.IsOpen (index.resolve .root base).schema)
    (hitem : index.lookup (index.resolve .root base).schema = .array →
      ∀ s ∈ (segmentsOf rest).head?, isPositional s = true) :
    index.lookup (index.resolve .root (base ++ "." ++ rest)).schema =
      if index.contains (join (index.resolve .root base).schema wildcard) &&
        (segmentsOf rest).length == 1 then .untyped else .undeclared := by
  have hresolve : index.resolve .root (base ++ "." ++ rest) =
      (segmentsOf rest).foldl index.followSegment (index.resolve .root base) := by
    rw [resolve, segmentsOf_append, List.foldl_append]
    rfl
  rw [hresolve]
  have hu := hopen.ne_empty hroot
  generalize index.resolve .root base = p at hopen hitem hu
  obtain ⟨s, more, hsegments⟩ := exists_segments rest
  have hundotted : ∀ t ∈ s :: more, '.' ∉ t.toList := fun t ht =>
    undotted_of_mem_segmentsOf (hsegments ▸ ht)
  rw [hsegments]
  rcases hopen with huntyped | ⟨harray, hitems⟩
  · have hleaf : (index.lookup p.schema).isContainer = false := by rw [huntyped]; rfl
    have hnone := Index.lookup_join_of_leaf hbuild hu hleaf wildcard_undotted
    have hnot : index.contains (join p.schema wildcard) = false := by
      rw [← Bool.not_eq_true, contains_iff, hnone]
      simp [Lookup.isUndeclared]
    rw [hnot]
    exact (foldl_below_leaf hbuild (fun q t => schema_followSegment_of_leaf) hu hleaf hundotted
      (by simp)).2
  · have hpositional : isPositional s = true := hitem harray s (by rw [hsegments]; rfl)
    rw [List.foldl_cons, followSegment_positional hpositional]
    -- The item itself may be declared without a type; whatever follows it is not declared.
    cases more with
    | nil =>
      cases hcontains : index.contains (join p.schema wildcard) with
      | true => exact IsOpen.item (.inr ⟨harray, hitems⟩) hcontains hbuild hu
      | false => exact lookup_of_not_contains hcontains
    | cons t more =>
      have hne : (p.positional s).schema ≠ "" := join_base_ne_empty hu
      rw [if_neg (by simp)]
      exact (foldl_below_leaf hbuild (fun q t => schema_followSegment_of_leaf) hne
        (Lookup.not_container_of_not_typed hitems)
        (fun r hr => hundotted r (List.mem_cons_of_mem _ hr)) (by simp)).2

theorem schema_descend {p : FieldPath} {segments : List String} :
    (p.descend segments).schema = segments.foldl join p.schema := by
  induction segments generalizing p with
  | nil => rfl
  | cons s rest ih => rw [FieldPath.descend_cons, ih]; rfl

theorem join_eq_foldl (hu : u ≠ "") (key : String) :
    join u key = (segmentsOf key).foldl join u := by
  obtain ⟨s, rest, hsegments⟩ := exists_segments key
  rw [foldl_join_below hu, hsegments, String.intercalate_cons_cons, ← hsegments,
    intercalate_segmentsOf, join_of_ne_empty hu]

theorem Index.lookup_join_segment (hbuild : Index.build d = .ok index) (hu : u ≠ "")
    (hopen : index.IsOpen u) {s : String} (hs : '.' ∉ s.toList) (hne : s ≠ wildcard) :
    index.lookup (join u s) = .undeclared := by
  rcases hopen with huntyped | ⟨harray, -⟩
  · exact lookup_join_of_leaf hbuild hu (by rw [huntyped]; rfl) hs
  · cases hcontains : index.contains (join u s) with
    | false => exact lookup_of_not_contains hcontains
    | true =>
      have hparent := lookup_parent_of_build hbuild hu hs hcontains
      rw [harray, if_neg hne] at hparent
      cases hparent

theorem Index.lookup_foldl_join (hbuild : Index.build d = .ok index) (hu : u ≠ "")
    (hleaf : (index.lookup u).isContainer = false) {segments : List String}
    (hundotted : ∀ s ∈ segments, '.' ∉ s.toList) (hsegments : segments ≠ []) :
    index.lookup (segments.foldl join u) = .undeclared := by
  have hbelow := foldl_below_leaf hbuild (f := fun q s => q.child (.key s)) (p := ⟨u, ""⟩)
    (fun q s _ hs => ⟨s, hs, rfl⟩) hu hleaf hundotted hsegments
  have hschema : (FieldPath.descend ⟨u, ""⟩ segments).schema = segments.foldl join u :=
    schema_descend
  rw [← hschema]
  exact hbelow.2

theorem Index.lookup_join_leaf (hbuild : Index.build d = .ok index) (hu : u ≠ "")
    (hleaf : (index.lookup u).isContainer = false) (key : String) :
    index.lookup (join u key) = .undeclared := by
  obtain ⟨s, more, hsegments⟩ := exists_segments key
  rw [join_eq_foldl hu]
  exact lookup_foldl_join hbuild hu hleaf (fun t ht => undotted_of_mem_segmentsOf ht)
    (by rw [hsegments]; simp)

/-- Of the fields of a document at an open path, only one named like the items is declared. -/
theorem Index.lookup_join_open (hbuild : Index.build d = .ok index) (hu : u ≠ "")
    (hopen : index.IsOpen u) {key : String} (hkey : key ≠ wildcard) :
    index.lookup (join u key) = .undeclared := by
  rcases hopen with huntyped | ⟨harray, hitems⟩
  · exact lookup_join_leaf hbuild hu (by rw [huntyped]; rfl) key
  · have hopen : index.IsOpen u := .inr ⟨harray, hitems⟩
    obtain ⟨s, more, hsegments⟩ := exists_segments key
    have hundotted : ∀ t ∈ s :: more, '.' ∉ t.toList := fun t ht =>
      undotted_of_mem_segmentsOf (hsegments ▸ ht)
    have hs := hundotted s List.mem_cons_self
    rw [join_eq_foldl hu, hsegments]
    cases more with
    | nil =>
      have hself := intercalate_segmentsOf key
      rw [hsegments, String.intercalate_singleton] at hself
      exact lookup_join_segment hbuild hu hopen hs (hself ▸ hkey)
    | cons t more =>
      have hleaf : (index.lookup (join u s)).isContainer = false := by
        by_cases hwild : s = wildcard
        · rw [hwild]
          exact Lookup.not_container_of_not_typed hitems
        · rw [lookup_join_segment hbuild hu hopen hs hwild]
          rfl
      exact lookup_foldl_join hbuild (join_base_ne_empty hu) hleaf
        (fun r hr => hundotted r (List.mem_cons_of_mem _ hr)) (by simp)

/-- A location that goes on below a path without a type leads to no container. -/
theorem Index.leaf_of_parse_below (hbuild : Index.build d = .ok index) {base : String}
    (rest : String) (hu : (FieldPath.parse base).schema ≠ "")
    (hleaf : (index.lookup (FieldPath.parse base).schema).isContainer = false) :
    (FieldPath.parse (base ++ "." ++ rest)).schema ≠ "" ∧
      (index.lookup (FieldPath.parse (base ++ "." ++ rest)).schema).isContainer = false := by
  have hparse : FieldPath.parse (base ++ "." ++ rest) =
      ((segmentsOf rest).filter (!·.isEmpty)).foldl FieldPath.step (FieldPath.parse base) := by
    rw [FieldPath.parse, segmentsOf_append, List.filter_append, List.foldl_append]
    rfl
  rw [hparse]
  by_cases hsegments : (segmentsOf rest).filter (!·.isEmpty) = []
  · rw [hsegments]
    exact ⟨hu, hleaf⟩
  · obtain ⟨hne, hundeclared⟩ := foldl_below_leaf hbuild (fun q s _ hs => schema_step hs) hu hleaf
      (fun s hs => undotted_of_mem_segmentsOf (List.mem_filter.1 hs).1) hsegments
    exact ⟨hne, by rw [hundeclared]; rfl⟩

end Lookups

end TypedDocs
