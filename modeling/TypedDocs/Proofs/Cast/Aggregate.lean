import TypedDocs.Cast.Error

/-!
# Rows of an aggregate

An aggregate made from rows records an error at a key if and only if some row has
the key, and then the error of one of its rows. If no two rows have the same key, the
aggregate holds every row; which row of a key wins otherwise is not said here.
-/

namespace TypedDocs

theorem Dictionary.get?_insertAll_some {α : Type} {d : Dictionary α} {rows : List (String × α)}
    {key : String} {value : α} (h : (d.insertAll rows).get? key = some value) :
    (key, value) ∈ rows ∨ d.get? key = some value := by
  induction rows generalizing d with
  | nil => exact .inr h
  | cons row rows ih =>
    rcases ih h with hrows | hinsert
    · exact .inl (List.mem_cons_of_mem _ hrows)
    · rw [get?_insert] at hinsert
      split at hinsert
      · rename_i heq
        obtain rfl := Option.some.inj hinsert
        exact .inl (heq ▸ List.mem_cons_self)
      · exact .inr hinsert

theorem Dictionary.isSome_get?_insertAll {α : Type} {d : Dictionary α} {rows : List (String × α)}
    {key : String} (h : (d.get? key).isSome = true ∨ ∃ value, (key, value) ∈ rows) :
    ((d.insertAll rows).get? key).isSome = true := by
  induction rows generalizing d with
  | nil =>
    rcases h with h | ⟨value, hmem⟩
    · exact h
    · cases hmem
  | cons row rows ih =>
    apply ih
    rw [get?_insert]
    rcases h with h | ⟨value, hmem⟩
    · left
      split
      · rfl
      · exact h
    · rcases List.mem_cons.1 hmem with rfl | hmem
      · left; simp
      · exact .inr ⟨value, hmem⟩

theorem Dictionary.get?_insertAll_of_not_mem {α : Type} {d : Dictionary α}
    {rows : List (String × α)} {key : String} (h : key ∉ rows.map Prod.fst) :
    (d.insertAll rows).get? key = d.get? key := by
  cases hget : (d.insertAll rows).get? key with
  | some value =>
    rcases get?_insertAll_some hget with hrow | hd
    · exact absurd (List.mem_map.2 ⟨_, hrow, rfl⟩) h
    · exact hd.symm
  | none =>
    cases hd : d.get? key with
    | none => rfl
    | some value =>
      have hkept : (d.get? key).isSome = true := by
        rw [hd]
        rfl
      have hsome : ((d.insertAll rows).get? key).isSome = true :=
        isSome_get?_insertAll (.inl hkept)
      rw [hget] at hsome
      cases hsome

/-- Where no two rows have the same key, none is replaced by a later one. -/
theorem Dictionary.get?_insertAll_of_mem {α : Type} {d : Dictionary α} {rows : List (String × α)}
    (hnodup : (rows.map Prod.fst).Nodup) {row : String × α} (h : row ∈ rows) :
    (d.insertAll rows).get? row.1 = some row.2 := by
  induction rows generalizing d with
  | nil => cases h
  | cons first rows ih =>
    obtain ⟨hfirst, hrest⟩ := List.nodup_cons.1 (List.map_cons ▸ hnodup)
    rcases List.mem_cons.1 h with rfl | h
    · have hkept := get?_insertAll_of_not_mem (d := d.insert row.1 row.2) hfirst
      exact hkept.trans (get?_insert_self d row.1 row.2)
    · exact ih hrest h

/-- An aggregate of rows with different keys holds these rows and nothing else. -/
theorem Dictionary.get?_ofList_eq_some_iff {α : Type} {rows : List (String × α)}
    (hnodup : (rows.map Prod.fst).Nodup) {key : String} {value : α} :
    (ofList rows).get? key = some value ↔ (key, value) ∈ rows := by
  constructor
  · intro h
    rcases get?_insertAll_some h with hrow | hempty
    · exact hrow
    · cases hempty
  · intro h
    exact get?_insertAll_of_mem hnodup h

theorem CastErrors.toOption_bind_get? (errors : CastErrors) (path : String) :
    (errors.toOption.bind fun errors => errors.get? path) = errors.get? path := by
  unfold toOption hasError
  cases h : errors.isEmpty with
  | false => rfl
  | true =>
    have hnil : errors.bindings = [] := List.isEmpty_iff.1 h
    simp [Dictionary.get?, hnil, Dictionary.find]

end TypedDocs
