import TypedDocs.Proofs.Schema.Compiled
import TypedDocs.Proofs.Schema.Follow

/-!
# Segments of dotted keys, and the parents of declared paths

The segments of a key joined with points are the key again, and joining one more
segment adds it at the end. A key is declared in a built index only below a container
that goes with its last segment.
-/

namespace TypedDocs

section Segments

theorem segmentsOf_append (base s : String) :
    segmentsOf (base ++ "." ++ s) = segmentsOf base ++ segmentsOf s := by
  have htext : (base ++ "." ++ s).toList = base.toList ++ '.' :: s.toList := by simp
  rw [segmentsOf, htext, partsAt_append, List.map_append]
  rfl

theorem undotted_of_mem_segmentsOf {key s : String} (h : s ∈ segmentsOf key) : '.' ∉ s.toList := by
  obtain ⟨part, hpart, rfl⟩ := List.mem_map.1 h
  rw [String.toList_ofList]
  exact not_mem_of_mem_partsAt hpart

theorem segmentsOf_join {base s : String} (hbase : base ≠ "") (hs : '.' ∉ s.toList) :
    segmentsOf (join base s) = segmentsOf base ++ [s] := by
  rw [join_of_ne_empty hbase, segmentsOf_append, segmentsOf_of_undotted hs]

theorem wildcard_undotted : '.' ∉ wildcard.toList := by decide

/-- The segments with points put back between them are the key. -/
theorem intercalate_segmentsOf (key : String) : String.intercalate "." (segmentsOf key) = key := by
  rw [segmentsOf, intercalate_partsAt, String.ofList_toList]

/-- Names joined with points are the segments of the key. -/
theorem segmentsOf_intercalate {names : List String} (hnames : names ≠ [])
    (hundotted : ∀ s ∈ names, '.' ∉ s.toList) :
    segmentsOf (String.intercalate "." names) = names := by
  induction names with
  | nil => exact absurd rfl hnames
  | cons s rest ih =>
    have hs := segmentsOf_of_undotted (hundotted s List.mem_cons_self)
    cases rest with
    | nil => rw [String.intercalate_singleton, hs]
    | cons t rest =>
      rw [String.intercalate_cons_cons, segmentsOf_append, hs,
        ih (by simp) fun r hr => hundotted r (List.mem_cons_of_mem _ hr)]
      rfl

/-- What stands before the last point of a key is its parent, which may be empty. -/
theorem parentOf?_append (base : String) {s : String} (hs : '.' ∉ s.toList) :
    parentOf? (base ++ "." ++ s) = some (base, s) := by
  obtain ⟨first, rest, hsegments⟩ := exists_segments base
  have hne : (segmentsOf base).reverse ≠ [] := by simp [hsegments]
  obtain ⟨last, before, hreverse⟩ := List.exists_cons_of_ne_nil hne
  have hback : (last :: before).reverse = segmentsOf base := by
    rw [← hreverse, List.reverse_reverse]
  rw [parentOf?, segmentsOf_append, segmentsOf_of_undotted hs, List.reverse_append, hreverse]
  simp only [List.reverse_cons, List.reverse_nil, List.nil_append, List.cons_append,
    Option.some.injEq, Prod.mk.injEq, and_true]
  rw [← List.reverse_cons, hback, intercalate_segmentsOf]

theorem parentOf?_join {base s : String} (hbase : base ≠ "") (hs : '.' ∉ s.toList) :
    parentOf? (join base s) = some (base, s) := by
  rw [join_of_ne_empty hbase, parentOf?_append base hs]

/-- The segments of a key; the root has none. -/
def keySegments (key : String) : List String := if key.isEmpty then [] else segmentsOf key

theorem keySegments_join {base s : String} (hs : '.' ∉ s.toList) (hne : s ≠ "") :
    keySegments (join base s) = keySegments base ++ [s] := by
  by_cases hbase : base = ""
  · subst hbase
    have hjoin : join "" s = s := rfl
    have hroot : keySegments "" = [] := rfl
    rw [hjoin, hroot, List.nil_append, keySegments, if_neg (by simp [hne]),
      segmentsOf_of_undotted hs]
  · have hjoin := join_base_ne_empty (s := s) hbase
    rw [keySegments, if_neg (by simp [hjoin]), segmentsOf_join hbase hs, keySegments,
      if_neg (by simp [hbase])]

/-- The segments of a key are those of no other key. -/
theorem keySegments_injective : Function.Injective keySegments := by
  have hback : ∀ key, String.intercalate "." (keySegments key) = key := by
    intro key
    unfold keySegments
    split
    · rename_i hempty
      exact (String.isEmpty_iff.1 hempty).symm
    · exact intercalate_segmentsOf key
  intro a b h
  rw [← hback a, h, hback b]

end Segments

namespace Index

variable {index : Index} {d : Declarations}

theorem lookup_of_typeOf? {key : String} {declared : DeclaredType}
    (h : (index.paths.typeOf? key).any (· == declared) = true) :
    (declared = .array → index.lookup key = .array) ∧
      (declared = .object → index.lookup key = .object) := by
  unfold Declarations.typeOf? at h
  unfold lookup get?
  cases hget : index.paths.get? key with
  | none => simp [hget] at h
  | some found =>
    cases found with
    | none => simp [hget] at h
    | some t =>
      have heq : (t == declared) = true := by simpa [hget] using h
      constructor
      · rintro rfl
        cases t with
        | array => rfl
        | object => cases heq
        | scalar t => cases heq
      · rintro rfl
        cases t with
        | array => cases heq
        | object => rfl
        | scalar t => cases heq

/-- A declared path hangs off the container that its last segment asks for. -/
theorem lookup_parent_of_build (hbuild : build d = .ok index) {base s : String} (hbase : base ≠ "")
    (hs : '.' ∉ s.toList) (hcontains : index.contains (join base s) = true) :
    index.lookup base = if s = wildcard then .array else .object := by
  unfold build at hbuild
  split at hbuild
  · cases hbuild
  · rename_i hnone
    cases hbuild
    obtain ⟨declared, hget⟩ := Option.isSome_iff_exists.1
      (show (d.get? (join base s)).isSome = true from hcontains)
    have hmem : join base s ∈ d.keys :=
      List.mem_map.2 ⟨_, Dictionary.mem_bindings_of_get? hget, rfl⟩
    have horphan : orphan? d (join base s) = none := List.findSome?_eq_none_iff.1 hnone _ hmem
    simp only [orphan?, parentOf?_join hbase hs, ite_eq_left_iff, reduceCtorEq, imp_false,
      Bool.not_eq_true, Bool.not_eq_false] at horphan
    have hparent := @lookup_of_typeOf? ⟨d⟩ _ _ horphan
    unfold requiredParent at hparent
    split
    · exact hparent.1 (if_pos ‹_›)
    · exact hparent.2 (if_neg ‹_›)

end Index

namespace Definition

theorem build_of_compile {registry : Registry} {options : CompileOptions} {definition : Value}
    {index : Index} (h : compile registry options definition = .ok index) :
    Index.build index.paths = .ok index := by
  have hpaths := paths_of_compile h
  unfold compile at h
  rwa [hpaths] at h

end Definition

end TypedDocs
