import TypedDocs.Proofs.Schema.Reachable

/-!
# Resolved keys are canonical

A key is followed segment by segment, so it can be cut at any point and followed in two goes. The
schema key that it comes to names every array level on the way, and is followed to itself: the
names in it stand where no more levels are entered. The instance key shows none of this and keeps
what was written.
-/

namespace TypedDocs

namespace Index

variable {index : Index} {p q : FieldPath} {base s : String}

/-- Where the last level has been entered, no more are. -/
theorem entersItems_enterItems (p : FieldPath) :
    index.entersItems (index.enterItems p) = false := by
  induction p using enterItems.induct index with
  | case1 p h ih => rw [enterItems_of_enters h]; exact ih
  | case2 p h =>
    have hstays : index.entersItems p = false := by simpa using h
    rw [enterItems_of_stays hstays]
    exact hstays

theorem instanceKey_enterItems (p : FieldPath) :
    (index.enterItems p).instanceKey = p.instanceKey := by
  induction p using enterItems.induct index with
  | case1 p h ih => rw [enterItems_of_enters h, ih]; rfl
  | case2 p h => rw [enterItems_of_stays (by simpa using h)]

theorem instanceKey_followSegment :
    (index.followSegment p s).instanceKey = join p.instanceKey s := by
  cases hpositional : isPositional s with
  | true => rw [followSegment_positional hpositional]; rfl
  | false =>
    rw [followSegment_named hpositional]
    exact congrArg (join · s) (instanceKey_enterItems p)

theorem instanceKey_foldl (segments : List String) (p : FieldPath) :
    (segments.foldl index.followSegment p).instanceKey = segments.foldl join p.instanceKey := by
  induction segments generalizing p with
  | nil => rfl
  | cons s rest ih => rw [List.foldl_cons, List.foldl_cons, ih, instanceKey_followSegment]

/-- A schema key that is followed to itself. The root has no key, whatever the empty name means. -/
def IsCanonical (index : Index) (key : String) : Prop :=
  key = "" ∨ (index.resolve .root key).schema = key

/-- An item of a canonical array is canonical, since its segment is the wildcard already. -/
theorem IsCanonical.item (h : index.IsCanonical base) :
    (index.resolve .root (join base wildcard)).schema = join base wildcard := by
  by_cases hbase : base = ""
  · subst hbase
    rfl
  · have hself := h.resolve_left hbase
    rw [resolve_join_wildcard hbase]
    exact congrArg (join · wildcard) hself

/-- So is a name below a canonical key, if no levels are entered there. -/
theorem IsCanonical.name (h : index.IsCanonical p.schema) (hstays : index.entersItems p = false)
    (hname : isPositional s = false) (hs : '.' ∉ s.toList) :
    (index.resolve .root (join p.schema s)).schema = join p.schema s := by
  by_cases hbase : p.schema = ""
  · have hnone : index.entersItems .root = false := by
      rw [← entersItems_congr (p := p) hbase]
      exact hstays
    have hjoin : join p.schema s = s := by rw [hbase]; rfl
    rw [hjoin, resolve_undotted hs, followSegment_named hname, enterItems_of_stays hnone]
    rfl
  · have hself := h.resolve_left hbase
    have hnone : index.entersItems (index.resolve .root p.schema) = false := by
      rw [entersItems_congr hself]
      exact hstays
    rw [resolve_join hbase hs, followSegment_named hname, enterItems_of_stays hnone]
    exact congrArg (join · s) hself

theorem IsCanonical.enterItems (h : index.IsCanonical p.schema) :
    index.IsCanonical (index.enterItems p).schema := by
  induction p using Index.enterItems.induct index with
  | case1 p henters ih =>
    rw [enterItems_of_enters henters]
    exact ih (.inr h.item)
  | case2 p hstays =>
    rw [enterItems_of_stays (by simpa using hstays)]
    exact h

/-- Each step from a canonical key leads to one. -/
theorem IsCanonical.followSegment (h : index.IsCanonical p.schema) (hs : '.' ∉ s.toList) :
    (index.resolve .root (index.followSegment p s).schema).schema =
      (index.followSegment p s).schema := by
  cases hpositional : isPositional s with
  | true =>
    rw [followSegment_positional hpositional]
    exact h.item
  | false =>
    rw [followSegment_named hpositional]
    exact h.enterItems.name (entersItems_enterItems p) hpositional hs

theorem IsCanonical.foldl {first : String} {rest : List String} (h : index.IsCanonical p.schema)
    (hundotted : ∀ s ∈ first :: rest, '.' ∉ s.toList) :
    let q := (first :: rest).foldl index.followSegment p
    (index.resolve .root q.schema).schema = q.schema := by
  induction rest generalizing first p with
  | nil => exact h.followSegment (hundotted first List.mem_cons_self)
  | cons second rest ih =>
    have hstep := h.followSegment (hundotted first List.mem_cons_self)
    exact ih (.inr hstep) fun s hs => hundotted s (List.mem_cons_of_mem _ hs)

theorem resolve_append (p : FieldPath) (a b : String) :
    index.resolve p (a ++ "." ++ b) = index.resolve (index.resolve p a) b := by
  rw [resolve, segmentsOf_append, List.foldl_append]
  rfl

/-- Segments written behind a key are followed from where the key leads. -/
theorem resolve_intercalate {rest : List String} (p : FieldPath) (key : String)
    (hundotted : ∀ s ∈ rest, '.' ∉ s.toList) :
    index.resolve p (String.intercalate "." (key :: rest)) =
      rest.foldl index.followSegment (index.resolve p key) := by
  cases rest with
  | nil => rw [String.intercalate_singleton]; rfl
  | cons s rest =>
    have hbehind : index.resolve (index.resolve p key) (String.intercalate "." (s :: rest)) =
        (s :: rest).foldl index.followSegment (index.resolve p key) := by
      rw [resolve, segmentsOf_intercalate (by simp) hundotted]
    rw [String.intercalate_cons_cons, resolve_append, hbehind]

/-- A dotted key is followed part by part. The schema key it comes to is followed to itself, and
the instance key is what was written, if no segment of it is empty. -/
theorem resolve_canonical (index : Index) :
    (∀ p a b, index.resolve p (a ++ "." ++ b) = index.resolve (index.resolve p a) b) ∧
    (∀ key, (index.resolve .root (index.resolve .root key).schema).schema =
      (index.resolve .root key).schema) ∧
    ∀ key, (∀ s ∈ segmentsOf key, s ≠ "") → (index.resolve .root key).instanceKey = key := by
  refine ⟨resolve_append, fun key => ?_, fun key hnonempty => ?_⟩
  · obtain ⟨first, rest, hsegments⟩ := exists_segments key
    have hundotted : ∀ s ∈ first :: rest, '.' ∉ s.toList := fun s hs =>
      undotted_of_mem_segmentsOf (hsegments ▸ hs)
    have hcanonical : index.IsCanonical FieldPath.root.schema := .inl rfl
    have hresolve : index.resolve .root key = (first :: rest).foldl index.followSegment .root := by
      rw [resolve, hsegments]
    rw [hresolve]
    exact hcanonical.foldl hundotted
  · have hroot : FieldPath.root.instanceKey = "" := rfl
    rw [resolve, instanceKey_foldl, hroot, foldl_join hnonempty, intercalate_segmentsOf]

/-- A name below an array of arrays: both levels show in the schema key and neither in the
instance key. -/
theorem resolve_canonical_points :
    (bands.resolve .root "points.x").schema = "points.$.$.x" ∧
      (bands.resolve .root "points.$.$.x").schema = "points.$.$.x" ∧
      (∀ s ∈ segmentsOf "points.x", s ≠ "") ∧
      (bands.resolve .root "points.x").instanceKey = "points.x" := by
  have hschema : (bands.resolve .root "points.x").schema = "points.$.$.x" := by decide +kernel
  have hself := (resolve_canonical bands).2.1 "points.x"
  have hnonempty : ∀ s ∈ segmentsOf "points.x", s ≠ "" := by decide
  rw [hschema] at hself
  exact ⟨hschema, hself, hnonempty, (resolve_canonical bands).2.2 "points.x" hnonempty⟩

end Index

end TypedDocs
