import TypedDocs.Document

/-!
# One step of a document walk

The index asks one of four things of the value at a location. The equations below
give the walk of a location from what is asked there, with promotion as one step
down the index. They hold for either policy, with and without conversion.
-/

namespace TypedDocs

theorem Value.eq_null {v : Value} (h : v.isNull = true) : v = .null := by
  cases v with
  | null => rfl
  | _ => cases h

theorem Value.ne_null {v : Value} (h : v.isNull = false) : v ≠ .null := by
  rintro rfl
  cases h

theorem sizeOf_lt_of_field {fs : Fields} {key : String} {x : Value} (h : (key, x) ∈ fs) :
    sizeOf x < sizeOf (Value.object fs) := by
  have hmem := List.sizeOf_lt_of_mem h
  simp only [Prod.mk.sizeOf_spec] at hmem
  simp only [Value.object.sizeOf_spec]
  omega

theorem sizeOf_lt_of_item {xs : List Value} {x : Value} (h : x ∈ xs) :
    sizeOf x < sizeOf (Value.array xs) := by
  have hmem := List.sizeOf_lt_of_mem h
  simp only [Value.array.sizeOf_spec]
  omega

theorem sizeOf_le_of_promoted {v x : Value} (h : x ∈ v.promoted) : sizeOf x ≤ sizeOf v := by
  cases v with
  | array xs => exact Nat.le_of_lt (sizeOf_lt_of_item h)
  | _ => exact Nat.le_of_eq (congrArg sizeOf (List.mem_singleton.1 h))

/-- What the index asks of the value at a location. -/
inductive Demand where
  /-- Anything will do, and nothing below is looked at. -/
  | nothing
  /-- An array whose items are declared with a type. -/
  | items
  | object
  | scalar (t : ScalarType)

namespace Index

variable {index : Index} {p : FieldPath}

def demand (index : Index) (p : FieldPath) : Demand :=
  match index.lookup p.schema with
  | .object => .object
  | .scalar t => .scalar t
  | .array => if (index.lookup (join p.schema wildcard)).isTyped then .items else .nothing
  | .undeclared | .untyped => .nothing

theorem hasTypedItems_iff : index.hasTypedItems p.schema = true ↔ index.demand p = .items := by
  unfold hasTypedItems demand
  cases index.lookup p.schema with
  | array =>
    cases (index.lookup (join p.schema wildcard)).isTyped <;> simp [Lookup.isArray]
  | _ => simp [Lookup.isArray]

theorem not_hasTypedItems (h : index.demand p ≠ .items) : ¬ index.hasTypedItems p.schema = true :=
  fun ht => h (hasTypedItems_iff.1 ht)

theorem demand_eq_object_iff : index.demand p = .object ↔ index.lookup p.schema = .object := by
  unfold demand
  cases index.lookup p.schema with
  | array => simp only [reduceCtorEq, iff_false]; split <;> simp
  | _ => simp

theorem demand_eq_scalar_iff {t : ScalarType} :
    index.demand p = .scalar t ↔ index.lookup p.schema = .scalar t := by
  unfold demand
  cases index.lookup p.schema with
  | array => simp only [reduceCtorEq, iff_false]; split <;> simp
  | _ => simp

theorem lookup_of_demand_nothing (h : index.demand p = .nothing) :
    index.lookup p.schema = .undeclared ∨ index.lookup p.schema = .untyped ∨
      index.lookup p.schema = .array := by
  unfold demand at h
  cases hl : index.lookup p.schema <;> simp_all

theorem isArray_of_demand_items (h : index.demand p = .items) :
    (index.lookup p.schema).isArray = true := by
  have htyped := hasTypedItems_iff.2 h
  simp only [hasTypedItems, Bool.and_eq_true] at htyped
  exact htyped.1

theorem isTyped_of_demand_items (h : index.demand p = .items) :
    (index.lookup (join p.schema wildcard)).isTyped = true := by
  have htyped := hasTypedItems_iff.2 h
  simp only [hasTypedItems, Bool.and_eq_true] at htyped
  exact htyped.2

theorem prune_cons_kept {base key : String} {x : Value} {fs : Fields}
    (h : index.keepsField base key x = true) :
    index.prune base ((key, x) :: fs) = (key, x) :: index.prune base fs :=
  List.filter_cons_of_pos h

theorem prune_cons_dropped {base key : String} {x : Value} {fs : Fields}
    (h : index.keepsField base key x = false) :
    index.prune base ((key, x) :: fs) = index.prune base fs :=
  List.filter_cons_of_neg (by simp [h])

theorem landing_of_items (h : index.demand p = .items) :
    index.landing p = ((index.landing (p.child (.index 0))).1 + 1,
      (index.landing (p.child (.index 0))).2) := by
  rw [landing, dif_pos (hasTypedItems_iff.2 h)]

theorem landing_of_rest (h : index.demand p ≠ .items) : index.landing p = (0, p) := by
  rw [landing, dif_neg (not_hasTypedItems h)]

/-- Induction down the array levels with typed items below a location. -/
theorem items_induction {motive : FieldPath → Prop}
    (rest : ∀ p, index.demand p ≠ .items → motive p)
    (down : ∀ p, index.demand p = .items → motive (p.child (.index 0)) → motive p)
    (p : FieldPath) : motive p := by
  induction p using landing.induct index with
  | case1 p h _ _ _ ih => exact down p (hasTypedItems_iff.1 h) ih
  | case2 p h => exact rest p fun hd => h (hasTypedItems_iff.2 hd)

end Index

namespace Walked

variable {α β : Type}

@[simp] theorem map_value (f : α → β) (r : Walked α) : (r.map f).value = f r.value := rfl

@[simp] theorem map_failures (f : α → β) (r : Walked α) : (r.map f).failures = r.failures := rfl

theorem toExcept_of_clean {r : Walked α} (h : r.failures = []) : r.toExcept = .ok r.value := by
  rw [toExcept, h]

theorem toExcept_of_failed {r : Walked α} {f : Failure} {rest : List Failure}
    (h : r.failures = f :: rest) : r.toExcept = .error f.2 := by
  rw [toExcept, h]

theorem toExcept_eq_ok_iff {r : Walked α} {a : α} :
    r.toExcept = .ok a ↔ r.failures = [] ∧ r.value = a := by
  cases hfailures : r.failures with
  | nil => simp [toExcept_of_clean hfailures]
  | cons f rest => simp [toExcept_of_failed hfailures]

theorem toExcept_eq_error_iff {r : Walked α} {e : CastError} :
    r.toExcept = .error e ↔ ∃ path rest, r.failures = (path, e) :: rest := by
  cases hfailures : r.failures with
  | nil => simp [toExcept_of_clean hfailures]
  | cons f rest =>
    obtain ⟨path, e'⟩ := f
    simp [toExcept_of_failed hfailures]

theorem toExcept_map (r : Walked α) (f : α → β) : (r.map f).toExcept = r.toExcept.map f := by
  unfold toExcept
  rw [map_failures, map_value]
  cases r.failures <;> rfl

end Walked

namespace Walker

/-- The walker of a cast with conversion. -/
def caster (index : Index) (policy : ErrorPolicy) : Walker := ⟨index, true, policy⟩

variable {w : Walker} {p : FieldPath} {v : Value}

theorem field_null : w.field p .null = .clean .null := rfl

theorem field_items {xs : List Value} (h : w.index.demand p = .items) :
    w.field p (.array xs) = (w.items p 0 xs).map .array := by
  rw [field, if_pos (Index.hasTypedItems_iff.2 h)]

/-- A value that is no array becomes the only item of one. -/
theorem field_promoted (h : w.index.demand p = .items) (hnull : v.isNull = false)
    (harray : v.isArray = false) :
    w.field p v = (w.field (p.child (.index 0)) v).map fun u => .array [u] := by
  cases v with
  | null => cases hnull
  | array xs => cases harray
  | object fs =>
    simp only [field, Index.landing_of_items h]
    split <;> rfl
  | _ =>
    simp only [field, Index.landing_of_items h]
    rfl

theorem field_object (h : w.index.demand p = .object) (hnull : v.isNull = false) :
    w.field p v = w.object p v := by
  have hl := Index.demand_eq_object_iff.1 h
  have hrest : w.index.demand p ≠ .items := by simp [h]
  cases v with
  | null => cases hnull
  | object fs => simp only [field, Index.landing_of_rest hrest, hl, object]; rfl
  | array xs => rw [field, if_neg (Index.not_hasTypedItems hrest), atom, hl, object]; simp
  | _ => simp only [field, Index.landing_of_rest hrest, atom, hl, object]; rfl

theorem field_misshapen (hd : w.index.demand p = .object) (hnull : v.isNull = false)
    (hobject : v.isObject = false) : w.field p v = .failed p (.ofShape v objectName) v := by
  rw [field_object hd hnull]
  cases v with
  | object fs => cases hobject
  | _ => rfl

/-- What the walk of an object location leaves is null only if null was there. -/
theorem isNull_field_of_object (hd : w.index.demand p = .object) (hnull : v.isNull = false) :
    (w.field p v).value.isNull = false := by
  rw [field_object hd hnull]
  cases v with
  | object fs => rfl
  | _ => exact hnull

theorem field_eq_atom (hrest : w.index.demand p ≠ .items) (hplain : w.index.demand p ≠ .object) :
    w.field p v = w.atom p v := by
  have hl : w.index.lookup p.schema ≠ .object := fun hl =>
    hplain (Index.demand_eq_object_iff.2 hl)
  cases v with
  | null =>
    rw [field, atom]
    split
    · exact absurd ‹_› hl
    · simp [leaf, ScalarType.coerce_null]
    · rfl
  | array xs => rw [field, if_neg (Index.not_hasTypedItems hrest)]
  | _ => simp only [field, Index.landing_of_rest hrest]; rfl

theorem field_scalar {t : ScalarType} (h : w.index.demand p = .scalar t) :
    w.field p v = w.leaf t p v := by
  rw [field_eq_atom (by simp [h]) (by simp [h]), atom, Index.demand_eq_scalar_iff.1 h]

theorem toExcept_leaf (t : ScalarType) (hcoerce : w.coerce = true) :
    (w.leaf t p v).toExcept = t.coerce v := by
  rw [leaf, if_pos hcoerce]
  cases t.coerce v <;> rfl

theorem field_nothing (h : w.index.demand p = .nothing) : w.field p v = .clean v := by
  rw [field_eq_atom (by simp [h]) (by simp [h]), atom]
  rcases Index.lookup_of_demand_nothing h with hl | hl | hl <;> simp [hl]

theorem stops_nil : w.stops [] = false := by simp [stops]

theorem stops_of_accumulate {failures : List Failure} (hpolicy : w.policy = .accumulate) :
    w.stops failures = false := by
  simp [stops, hpolicy]

theorem stops_of_failFast {failures : List Failure} (hpolicy : w.policy = .failFast)
    (h : failures ≠ []) : w.stops failures = true := by
  simp [stops, hpolicy, h]

section Lists

variable {i : Nat} {x : Value} {xs : List Value} {key : String} {fs : List (String × Value)}

theorem items_cons (h : w.stops (w.field (p.child (.index i)) x).failures = false) :
    w.items p i (x :: xs) =
      ⟨(w.field (p.child (.index i)) x).value :: (w.items p (i + 1) xs).value,
        (w.field (p.child (.index i)) x).failures ++ (w.items p (i + 1) xs).failures⟩ := by
  rw [items]
  simp [h]

theorem items_cons_stopped (h : w.stops (w.field (p.child (.index i)) x).failures = true) :
    w.items p i (x :: xs) =
      ⟨(w.field (p.child (.index i)) x).value :: xs,
        (w.field (p.child (.index i)) x).failures⟩ := by
  rw [items]
  simp [h]

theorem items_cons_clean (h : (w.field (p.child (.index i)) x).failures = []) :
    w.items p i (x :: xs) =
      (w.items p (i + 1) xs).map fun ys => (w.field (p.child (.index i)) x).value :: ys := by
  rw [items_cons (by rw [h]; exact stops_nil), h, List.nil_append]
  rfl

theorem fields_cons_dropped (h : w.index.keepsField p.schema key x = false) :
    w.fields p ((key, x) :: fs) = w.fields p fs := by
  rw [fields]
  simp [h]

variable (hkeep : w.index.keepsField p.schema key x = true)
include hkeep

theorem fields_cons (h : w.stops (w.field (p.child (.key key)) x).failures = false) :
    w.fields p ((key, x) :: fs) =
      ⟨(key, (w.field (p.child (.key key)) x).value) :: (w.fields p fs).value,
        (w.field (p.child (.key key)) x).failures ++ (w.fields p fs).failures⟩ := by
  rw [fields]
  simp [hkeep, h]

theorem fields_cons_stopped (h : w.stops (w.field (p.child (.key key)) x).failures = true) :
    w.fields p ((key, x) :: fs) =
      ⟨(key, (w.field (p.child (.key key)) x).value) :: w.index.prune p.schema fs,
        (w.field (p.child (.key key)) x).failures⟩ := by
  rw [fields]
  simp [hkeep, h]

theorem fields_cons_clean (h : (w.field (p.child (.key key)) x).failures = []) :
    w.fields p ((key, x) :: fs) =
      (w.fields p fs).map fun gs => (key, (w.field (p.child (.key key)) x).value) :: gs := by
  rw [fields_cons hkeep (by rw [h]; exact stops_nil), h, List.nil_append]
  rfl

/-- Where there is one field only, a walk that stops leaves nothing out. -/
theorem fields_singleton :
    w.fields p [(key, x)] = (w.field (p.child (.key key)) x).map fun y => [(key, y)] := by
  cases hstops : w.stops (w.field (p.child (.key key)) x).failures with
  | true =>
    rw [fields_cons_stopped hkeep hstops]
    rfl
  | false =>
    have hnil : w.fields p [] = .clean [] := rfl
    rw [fields_cons hkeep hstops, hnil, Walked.clean, List.append_nil]
    rfl

end Lists

/-- The cases of an induction along a walk, over the values at locations, the items of an array
from an index on, and the fields of an object. Promotion goes down the index alone. -/
structure Cases (index : Index) (onField : Value → FieldPath → Prop)
    (onItems : List Value → FieldPath → Nat → Prop) (onFields : Fields → FieldPath → Prop) :
    Prop where
  null : ∀ p, onField .null p
  array : ∀ {xs p}, index.demand p = .items → onItems xs p 0 → onField (.array xs) p
  promoted : ∀ {v p}, index.demand p = .items → v.isNull = false → v.isArray = false →
    onField v (p.child (.index 0)) → onField v p
  object : ∀ {fs p}, index.demand p = .object → onFields fs p → onField (.object fs) p
  misshapen : ∀ {v p}, index.demand p = .object → v.isNull = false → v.isObject = false →
    onField v p
  /-- Neither items nor an object are asked for, and nothing below is looked at. -/
  atom : ∀ {v p}, index.demand p ≠ .items → index.demand p ≠ .object → v.isNull = false →
    onField v p
  noItems : ∀ p i, onItems [] p i
  item : ∀ {x xs p i}, onField x (p.child (.index i)) → onItems xs p (i + 1) →
    onItems (x :: xs) p i
  noFields : ∀ p, onFields [] p
  kept : ∀ {key x fs p}, index.keepsField p.schema key x = true →
    onField x (p.child (.key key)) → onFields fs p → onFields ((key, x) :: fs) p
  dropped : ∀ {key x fs p}, index.keepsField p.schema key x = false → onFields fs p →
    onFields ((key, x) :: fs) p

namespace Cases

variable {index : Index} {onField : Value → FieldPath → Prop}
  {onItems : List Value → FieldPath → Nat → Prop} {onFields : Fields → FieldPath → Prop}

/-- A value that is no array comes to rest somewhere down the index. -/
theorem field_of_rest (c : Cases index onField onItems onFields) {v : Value}
    (hnull : v.isNull = false) (harray : v.isArray = false)
    (hobject : ∀ p, index.demand p = .object → onField v p) (p : FieldPath) : onField v p := by
  induction p using @Index.items_induction index with
  | rest p hd =>
    by_cases ho : index.demand p = .object
    · exact hobject p ho
    · exact c.atom hd ho hnull
  | down p hd ih => exact c.promoted hd hnull harray ih

mutual
theorem field (c : Cases index onField onItems onFields) :
    ∀ (v : Value) (p : FieldPath), onField v p
  | .null, p => c.null p
  | .bool _, p => c.field_of_rest rfl rfl (fun _ hd => c.misshapen hd rfl rfl) p
  | .number _, p => c.field_of_rest rfl rfl (fun _ hd => c.misshapen hd rfl rfl) p
  | .string _, p => c.field_of_rest rfl rfl (fun _ hd => c.misshapen hd rfl rfl) p
  | .array xs, p => by
    by_cases hd : index.demand p = .items
    · exact c.array hd (c.items xs p 0)
    by_cases ho : index.demand p = .object
    · exact c.misshapen ho rfl rfl
    · exact c.atom hd ho rfl
  | .object fs, p => by
    -- Taken here, where the fields are seen to be part of the object.
    have hfields := c.fields fs
    exact c.field_of_rest rfl rfl (fun q hd => c.object hd (hfields q)) p
theorem items (c : Cases index onField onItems onFields) :
    ∀ (xs : List Value) (p : FieldPath) (i : Nat), onItems xs p i
  | [], p, i => c.noItems p i
  | x :: xs, p, i => c.item (c.field x _) (c.items xs p (i + 1))
theorem fields (c : Cases index onField onItems onFields) :
    ∀ (fs : List (String × Value)) (p : FieldPath), onFields fs p
  | [], p => c.noFields p
  | (key, x) :: fs, p => by
    cases hkeep : index.keepsField p.schema key x with
    | true => exact c.kept hkeep (c.field x _) (c.fields fs p)
    | false => exact c.dropped hkeep (c.fields fs p)
end

end Cases

end Walker

/-- The walk of a document with one field is that of the field, if it is kept. -/
theorem Document.walk_field {index : Index} {key : String} {v : Value}
    (hkeep : index.keepsField "" key v = true) (policy : ErrorPolicy) :
    walk index { policy } (.object [(key, v)]) =
      ((Walker.caster index policy).field (FieldPath.root.child (.key key)) v).map
        fun u => .object [(key, u)] := by
  have hwalk : walk index { policy } (.object [(key, v)]) =
      ((Walker.caster index policy).fields .root [(key, v)]).map .object := rfl
  rw [hwalk, Walker.fields_singleton hkeep]
  rfl

end TypedDocs
