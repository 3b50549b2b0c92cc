import Mathlib.Data.List.Induction
import TypedDocs.Proofs.Dictionary
import TypedDocs.Proofs.Schema.Segments

/-!
# Declared paths and what they hang off

Paths are declared one after the other, and a path may be declared again; then the last
declaration counts. The declarations make an index exactly if right above the last segment of
each dotted path stands the container that the segment asks for. It is enough to ask this of the
parents: then whatever stands before a point of a declared path is such a container too.
-/

namespace TypedDocs

/-- A key with a point in it is a segment below some base. Either of them may be empty. -/
theorem exists_parent_of_dotted {key : String} (h : '.' ∈ key.toList) :
    ∃ base s, '.' ∉ s.toList ∧ key = base ++ "." ++ s := by
  have hkey := intercalate_segmentsOf key
  have hundotted : ∀ s ∈ segmentsOf key, '.' ∉ s.toList := fun s => undotted_of_mem_segmentsOf
  obtain ⟨first, rest, hsegments⟩ := exists_segments key
  rw [hsegments] at hkey hundotted
  induction rest using List.reverseRecOn with
  | nil =>
    rw [String.intercalate_singleton] at hkey
    exact absurd h (hkey ▸ hundotted first List.mem_cons_self)
  | append_singleton before last =>
    refine ⟨String.intercalate "." (first :: before), last, hundotted last (by simp), ?_⟩
    rw [← hkey, ← List.cons_append,
      String.intercalate_append_of_ne_nil (by simp) (by simp), String.intercalate_singleton]

/-- What the last row of a path says, if there is one. -/
def lastDeclared? (rows : List (String × Option DeclaredType)) (path : String) :
    Option (Option DeclaredType) :=
  (rows.reverse.find? fun row => row.1 = path).map Prod.snd

theorem get?_ofList_declared (rows : List (String × Option DeclaredType)) (path : String) :
    (Dictionary.ofList rows).get? path = lastDeclared? rows path := by
  unfold lastDeclared?
  induction rows using List.reverseRecOn with
  | nil => rfl
  | append_singleton rows row ih =>
    have hinsert : Dictionary.ofList (rows ++ [row]) =
        (Dictionary.ofList rows).insert row.1 row.2 := Dictionary.insertAll_append
    rw [hinsert, Dictionary.get?_insert, List.reverse_append, List.reverse_singleton,
      List.singleton_append, List.find?_cons]
    by_cases hrow : row.1 = path
    · simp [hrow]
    · simp [hrow, ih]

namespace Index

variable {d : Declarations} {index : Index} {base s path : String}

/-- The base of a segment is declared as the container that the segment asks for. -/
def Holds (d : Declarations) (base s : String) : Prop :=
  d.get? base = some (some (if s = wildcard then .array else .object))

theorem any_typeOf?_iff_holds :
    (d.typeOf? base).any (· == requiredParent s) = true ↔ Holds d base s := by
  unfold Holds Declarations.typeOf? requiredParent
  cases d.get? base with
  | none => simp
  | some declared =>
    cases declared with
    | none => simp
    | some t => cases t <;> split <;> simp <;> rfl

theorem lookup_of_holds (h : Holds index.paths base s) :
    index.lookup base = if s = wildcard then .array else .object := by
  have hget : index.get? base = some (some (if s = wildcard then .array else .object)) := h
  unfold lookup
  rw [hget]
  by_cases hs : s = wildcard <;> simp [hs]

theorem orphan?_append (hs : '.' ∉ s.toList) : orphan? d (base ++ "." ++ s) =
    if (d.typeOf? base).any (· == requiredParent s) then none
    else some (.orphanPath (base ++ "." ++ s) base (requiredParent s).name) := by
  rw [orphan?, parentOf?_append base hs]

/-- Whichever path is complained about, the complaint names it, its base, and the container that
the base is not. -/
theorem orphan?_eq_some_iff {e : SchemaError} : orphan? d path = some e ↔
    ∃ base s, '.' ∉ s.toList ∧ path = base ++ "." ++ s ∧ ¬ Holds d base s ∧
      e = .orphanPath path base (requiredParent s).name := by
  constructor
  · intro h
    by_cases hdotted : '.' ∈ path.toList
    · obtain ⟨base, s, hs, rfl⟩ := exists_parent_of_dotted hdotted
      rw [orphan?_append hs, Option.ite_none_left_eq_some, Option.some.injEq] at h
      exact ⟨base, s, hs, rfl, fun hholds => h.1 (any_typeOf?_iff_holds.2 hholds), h.2.symm⟩
    · rw [orphan?, parentOf?, segmentsOf_of_undotted hdotted] at h
      cases h
  · rintro ⟨base, s, hs, rfl, hholds, rfl⟩
    rw [orphan?_append hs]
    exact if_neg fun hany => hholds (any_typeOf?_iff_holds.1 hany)

/-- Every declared path of more than one segment is held by its parent. -/
def ParentsHold (d : Declarations) : Prop :=
  ∀ base s, '.' ∉ s.toList → (d.get? (base ++ "." ++ s)).isSome = true → Holds d base s

theorem orphan?_eq_none_of_parentsHold (h : ParentsHold d) (hpath : path ∈ d.keys) :
    orphan? d path = none := by
  rw [Option.eq_none_iff_forall_ne_some]
  intro e he
  obtain ⟨base, s, hs, rfl, hholds, -⟩ := orphan?_eq_some_iff.1 he
  exact hholds (h base s hs (Dictionary.mem_keys_iff.1 hpath))

/-- What is built is the declarations themselves, and they are accepted if the parents hold. -/
theorem build_eq_ok_iff : build d = .ok index ↔ ParentsHold d ∧ index = ⟨d⟩ := by
  unfold build
  cases hfirst : d.keys.findSome? (orphan? d) with
  | some e =>
    obtain ⟨path, hpath, he⟩ := List.exists_of_findSome?_eq_some hfirst
    simp only [reduceCtorEq, false_iff, not_and]
    intro hparents
    rw [orphan?_eq_none_of_parentsHold hparents hpath] at he
    cases he
  | none =>
    have hparents : ParentsHold d := by
      intro base s hs hdeclared
      by_contra hholds
      have hmem := Dictionary.mem_keys_iff.2 hdeclared
      have horphan := orphan?_eq_some_iff.2 ⟨base, s, hs, rfl, hholds, rfl⟩
      rw [List.findSome?_eq_none_iff.1 hfirst _ hmem] at horphan
      cases horphan
    simp only [Except.ok.injEq, hparents, true_and]
    exact eq_comm

theorem declared_of_build_error {e : SchemaError} (h : build d = .error e) :
    ∃ path, (d.get? path).isSome = true ∧ orphan? d path = some e := by
  unfold build at h
  split at h
  · rename_i e' hfirst
    cases h
    obtain ⟨path, hpath, he⟩ := List.exists_of_findSome?_eq_some hfirst
    exact ⟨path, Dictionary.mem_keys_iff.1 hpath, he⟩
  · cases h

/-- What holds its children holds its descendants: going up from a declared path, each base has
been declared because it holds the one below it. -/
theorem ParentsHold.holds_first (h : ParentsHold d) {rest : List String}
    (hundotted : ∀ t ∈ s :: rest, '.' ∉ t.toList)
    (hdeclared : (d.get? (String.intercalate "." (base :: s :: rest))).isSome = true) :
    Holds d base s := by
  induction rest using List.reverseRecOn with
  | nil => exact h base s (hundotted s List.mem_cons_self) (by simpa using hdeclared)
  | append_singleton before last ih =>
    have hpath : String.intercalate "." (base :: s :: (before ++ [last])) =
        String.intercalate "." (base :: s :: before) ++ "." ++ last := by
      rw [← List.cons_append, ← List.cons_append,
        String.intercalate_append_of_ne_nil (by simp) (by simp), String.intercalate_singleton]
    rw [hpath] at hdeclared
    have hholds := h _ last (hundotted last (by simp)) hdeclared
    refine ih (fun t ht => hundotted t ?_) ?_
    · rcases List.mem_cons.1 ht with rfl | ht
      · exact List.mem_cons_self
      · exact List.mem_cons_of_mem _ (List.mem_append_left _ ht)
    · rw [hholds]
      rfl

theorem ParentsHold.lookup_ancestor (h : ParentsHold index.paths) {rest : String}
    (hcontains : index.contains (base ++ "." ++ rest) = true) :
    index.lookup base =
      if (segmentsOf rest).head? = some wildcard then .array else .object := by
  obtain ⟨s, more, hsegments⟩ := exists_segments rest
  have hpath : String.intercalate "." (base :: s :: more) = base ++ "." ++ rest := by
    rw [String.intercalate_cons_cons, ← hsegments, intercalate_segmentsOf]
  have hundotted : ∀ t ∈ s :: more, '.' ∉ t.toList := fun t ht =>
    undotted_of_mem_segmentsOf (hsegments ▸ ht)
  have hholds : Holds index.paths base s := by
    refine h.holds_first hundotted ?_
    rw [hpath]
    exact hcontains
  rw [lookup_of_holds hholds, hsegments]
  simp

/-- The complaint about a declared path whose base is not the container that its last segment
asks for. -/
def NamesOrphan (rows : List (String × Option DeclaredType)) (e : SchemaError) : Prop :=
  ∃ base s, '.' ∉ s.toList ∧ (lastDeclared? rows (base ++ "." ++ s)).isSome = true ∧
    lastDeclared? rows base ≠ some (some (if s = wildcard then .array else .object)) ∧
    e = .orphanPath (base ++ "." ++ s) base (if s = wildcard then "Array" else "Object")

theorem namesOrphan_of_orphan? {rows : List (String × Option DeclaredType)} {e : SchemaError}
    (hdeclared : (lastDeclared? rows path).isSome = true)
    (h : orphan? (Dictionary.ofList rows) path = some e) : NamesOrphan rows e := by
  obtain ⟨base, s, hs, rfl, hholds, rfl⟩ := orphan?_eq_some_iff.1 h
  rw [Holds, get?_ofList_declared] at hholds
  refine ⟨base, s, hs, hdeclared, hholds, ?_⟩
  unfold requiredParent
  split <;> rfl

/-- Rows of declarations make an index exactly if the last row of each dotted path finds its
parent declared, in its own last row, as the container that the last segment asks for. The index
holds the last rows, and every dotted beginning of a declared path is declared as the container
that the segment after it asks for. Otherwise the complaint is about a declared path, its parent
and the container that the parent is not, whichever such path is come across first. -/
theorem build_of_rows (rows : List (String × Option DeclaredType)) :
    ((∃ index, build (Dictionary.ofList rows) = .ok index) ↔
      ∀ base s, '.' ∉ s.toList → (lastDeclared? rows (base ++ "." ++ s)).isSome = true →
        lastDeclared? rows base = some (some (if s = wildcard then .array else .object))) ∧
    (∀ index, build (Dictionary.ofList rows) = .ok index →
      (∀ path, index.get? path = lastDeclared? rows path) ∧
      ∀ base rest, (lastDeclared? rows (base ++ "." ++ rest)).isSome = true →
        index.lookup base =
          if (segmentsOf rest).head? = some wildcard then .array else .object) ∧
    (∀ e, build (Dictionary.ofList rows) = .error e → NamesOrphan rows e) ∧
    ∀ path e, (lastDeclared? rows path).isSome = true →
      orphan? (Dictionary.ofList rows) path = some e → NamesOrphan rows e := by
  have hget := get?_ofList_declared rows
  refine ⟨?_, fun index hbuild => ?_, fun e herror => ?_, fun _ _ => namesOrphan_of_orphan?⟩
  · have hparents : ParentsHold (Dictionary.ofList rows) ↔
        ∀ base s, '.' ∉ s.toList → (lastDeclared? rows (base ++ "." ++ s)).isSome = true →
          lastDeclared? rows base = some (some (if s = wildcard then .array else .object)) := by
      simp only [ParentsHold, Holds, hget]
    rw [← hparents]
    exact ⟨fun ⟨_, hbuild⟩ => (build_eq_ok_iff.1 hbuild).1,
      fun h => ⟨_, build_eq_ok_iff.2 ⟨h, rfl⟩⟩⟩
  · obtain ⟨hparents, rfl⟩ := build_eq_ok_iff.1 hbuild
    refine ⟨hget, fun base rest hdeclared => hparents.lookup_ancestor ?_⟩
    rw [← hget] at hdeclared
    exact hdeclared
  · obtain ⟨path, hpath, he⟩ := declared_of_build_error herror
    rw [hget] at hpath
    exact namesOrphan_of_orphan? hpath he

/-- A path that is declared as an object first and as an array then, with items that are objects
with a field of no name. Declared as an object once more it leaves its items behind. -/
def tagRows : List (String × Option DeclaredType) :=
  [("tags", some .object), ("tags", some .array), ("tags.$", some .object), ("tags.$.", none)]

theorem build_of_rows_tags :
    (∃ index, build (Dictionary.ofList tagRows) = .ok index ∧
      index.get? "tags" = some (some .array) ∧ index.lookup "tags.$" = .object) ∧
    ∃ e, build (Dictionary.ofList (tagRows ++ [("tags", some .object)])) = .error e ∧
      NamesOrphan (tagRows ++ [("tags", some .object)]) e := by
  have hbuild : build (Dictionary.ofList tagRows) = .ok ⟨Dictionary.ofList tagRows⟩ := by rfl
  have herror : build (Dictionary.ofList (tagRows ++ [("tags", some .object)])) =
      .error (.orphanPath "tags.$" "tags" "Array") := by rfl
  obtain ⟨hlast, hancestor⟩ := (build_of_rows tagRows).2.1 _ hbuild
  refine ⟨⟨_, hbuild, ?_, ?_⟩, _, herror, (build_of_rows _).2.2.1 _ herror⟩
  · rw [hlast]
    rfl
  · have hfield : (lastDeclared? tagRows ("tags.$" ++ "." ++ "")).isSome = true := by decide
    rw [hancestor "tags.$" "" hfield, if_neg (by decide)]

end Index

end TypedDocs
