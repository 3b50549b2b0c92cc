import TypedDocs.Proofs.Filter.Reading

/-!
# Filters that read the same after a cast

Set against an array, a single value means one of its items, and a list means the whole
array. If the items are arrays themselves, the cast makes the single value a list, which
means something else than before. Such values are ambiguous; a filter in which no value
is ambiguous is steady. Whether it is depends on the values before the cast only.
-/

namespace TypedDocs

/-- An array whose items are arrays. -/
def Index.isNested (index : Index) (p : FieldPath) : Bool :=
  (index.lookup p.schema).isArray && (index.lookup p.element.schema).isArray

namespace Reading

instance (v : Value) : Decidable (IsSingle v) :=
  decidable_of_iff (v.isNull = false ∧ v.isArray = false ∧ isForeignObject v = false ∧
    isOperatorObject v = false)
    ⟨fun ⟨hnull, harray, hforeign, hops⟩ => ⟨hnull, harray, hforeign, hops⟩,
      fun h => ⟨h.not_null, h.not_array, h.not_foreign, h.not_operators⟩⟩

/-- The location whose items are meant by a single value. -/
def comparedWith : Reading → Option FieldPath
  | .comparand p | .logical p | .subfilter p _ => some p
  | .members item => item.comparedWith
  | _ => none

/-- A single value that is set against the items of an array of arrays. -/
def isAmbiguous (index : Index) (r : Reading) (v : Value) : Bool :=
  decide (IsSingle v) && r.comparedWith.any index.isNested

mutual
/-- No value read inside the given one is ambiguous. -/
def isSteady (index : Index) (r : Reading) : Value → Bool
  | .array xs =>
    match (r.plan index (.array xs)).step with
    | .items f => areItemsSteady index f 0 xs
    | _ => true
  | .object fs =>
    !r.isAmbiguous index (.object fs) &&
      match (r.plan index (.object fs)).step with
      | .fields f => areFieldsSteady index f fs
      | _ => true
  | v => !r.isAmbiguous index v
def areItemsSteady (index : Index) (f : Nat → Reading) (i : Nat) : List Value → Bool
  | [] => true
  | x :: xs => isSteady index (f i) x && areItemsSteady index f (i + 1) xs
def areFieldsSteady (index : Index) (f : String → Reading) : List (String × Value) → Bool
  | [] => true
  | (key, x) :: fs => isSteady index (f key) x && areFieldsSteady index f fs
end

section Plans

variable {index : Index} {r r' : Reading} {v : Value} {p : FieldPath} {t : ScalarType}

theorem not_ambiguous_of_not_single (h : ¬ IsSingle v) : r.isAmbiguous index v = false := by
  simp [isAmbiguous, h]

theorem not_ambiguous_of_not_nested (h : r.comparedWith.any index.isNested = false) :
    r.isAmbiguous index v = false := by
  simp [isAmbiguous, h]

theorem not_nested_of_not_array (h : (index.lookup p.schema).isArray = false) :
    index.isNested p = false := by
  simp [Index.isNested, h]

theorem not_nested_of_items (h : (index.lookup p.element.schema).isArray = false) :
    index.isNested p = false := by
  simp [Index.isNested, h]

theorem location_not_ambiguous : (location p).isAmbiguous index v = false :=
  not_ambiguous_of_not_nested rfl

theorem not_single_of_array {xs : List Value} : ¬ IsSingle (.array xs) :=
  fun h => nomatch h.not_array

theorem not_single_of_foreign (h : isForeignObject v = true) : ¬ IsSingle v := by
  intro hsingle
  rw [hsingle.not_foreign] at h
  cases h

theorem not_single_of_operators (h : isOperatorObject v = true) : ¬ IsSingle v := by
  intro hsingle
  rw [hsingle.not_operators] at h
  cases h

theorem isSteady_of_ambiguous (h : r.isAmbiguous index v = true) :
    r.isSteady index v = false := by
  cases v with
  | array xs =>
    rw [not_ambiguous_of_not_single not_single_of_array] at h
    cases h
  | _ => simp [isSteady, h]

/-- Of a plan, only what is done to the parts counts. -/
theorem isSteady_congr (hstep : (r.plan index v).step = (r'.plan index v).step)
    (hambiguous : r.isAmbiguous index v = r'.isAmbiguous index v) :
    r.isSteady index v = r'.isSteady index v := by
  cases v <;> simp only [isSteady, hstep, hambiguous]

theorem isSteady_of_plan_keep (hplan : r.plan index v = .keep)
    (hambiguous : r.isAmbiguous index v = false) : r.isSteady index v = true := by
  cases v <;> simp [isSteady, hplan, hambiguous, Plan.keep]

theorem isSteady_of_plan_items {xs : List Value} {f : Nat → Reading}
    (hplan : r.plan index (.array xs) = ⟨0, .items f⟩) :
    r.isSteady index (.array xs) = areItemsSteady index f 0 xs := by
  simp [isSteady, hplan]

theorem isSteady_of_plan_fields {fs : Fields} {f : String → Reading}
    (hplan : r.plan index (.object fs) = ⟨0, .fields f⟩)
    (hambiguous : r.isAmbiguous index (.object fs) = false) :
    r.isSteady index (.object fs) = areFieldsSteady index f fs := by
  simp [isSteady, hplan, hambiguous]

end Plans

section Scalars

/-- Readings that do not depend on a location. -/
inductive IsPlaceless : Reading → Prop
  | keep : IsPlaceless .keep
  | fixed (t : ScalarType) : IsPlaceless (.fixed t)
  | scalar (t : ScalarType) : IsPlaceless (.scalar t)
  | members {item : Reading} : IsPlaceless item → IsPlaceless (.members item)

variable {index : Index} {r : Reading} {v : Value} {t : ScalarType}

theorem IsPlaceless.comparedWith (h : r.IsPlaceless) : r.comparedWith = none := by
  induction h with
  | members _ ih => exact ih
  | _ => rfl

theorem IsPlaceless.not_ambiguous (h : r.IsPlaceless) : r.isAmbiguous index v = false :=
  not_ambiguous_of_not_nested (by rw [h.comparedWith]; rfl)

theorem ofScalarOperand_isPlaceless (key : String) : (ofScalarOperand t key).IsPlaceless := by
  unfold ofScalarOperand
  split
  · split
    · exact .scalar t
    · exact .members (.scalar t)
    · exact .members (.scalar t)
    · exact .fixed _
    all_goals exact .keep
  · exact .keep

/-- Steps that read no part at a location. -/
def ArePartsPlaceless : Step → Prop
  | .items f => ∀ i, (f i).IsPlaceless
  | .fields f => ∀ key, (f key).IsPlaceless
  | _ => True

theorem scalar_partsPlaceless : ArePartsPlaceless (Plan.scalar t v) := by
  unfold Plan.scalar
  split
  · trivial
  · split
    · split
      · exact ofScalarOperand_isPlaceless
      · trivial
    · trivial

variable (index v) in
theorem IsPlaceless.parts (h : r.IsPlaceless) : ArePartsPlaceless (r.plan index v).step := by
  induction h with
  | keep => trivial
  | fixed t => trivial
  | scalar t => exact scalar_partsPlaceless
  | members hitem ih =>
    cases v with
    | null => trivial
    | array xs => exact fun _ => hitem
    | _ => exact ih

mutual
/-- Only a location can make a value ambiguous. -/
theorem IsPlaceless.isSteady {index : Index} : ∀ (v : Value) {r : Reading}, r.IsPlaceless →
    r.isSteady index v = true
  | .array xs, r, h => by
    have hparts := h.parts index (.array xs)
    rw [Reading.isSteady]
    split
    · rename_i f hf
      rw [hf] at hparts
      exact IsPlaceless.areItemsSteady xs 0 hparts
    · rfl
  | .object fs, r, h => by
    have hparts := h.parts index (.object fs)
    rw [Reading.isSteady, h.not_ambiguous]
    split
    · rename_i f hf
      rw [hf] at hparts
      exact IsPlaceless.areFieldsSteady fs hparts
    · rfl
  | .null, _, h | .bool _, _, h | .number _, _, h | .string _, _, h => by
    simp [Reading.isSteady, h.not_ambiguous]
theorem IsPlaceless.areItemsSteady {index : Index} : ∀ (xs : List Value) (i : Nat)
    {f : Nat → Reading}, (∀ i, (f i).IsPlaceless) → areItemsSteady index f i xs = true
  | [], _, _, _ => rfl
  | x :: xs, i, _, h => by
    rw [Reading.areItemsSteady, IsPlaceless.isSteady x (h i),
      IsPlaceless.areItemsSteady xs (i + 1) h]
    rfl
theorem IsPlaceless.areFieldsSteady {index : Index} : ∀ (fs : List (String × Value))
    {f : String → Reading}, (∀ key, (f key).IsPlaceless) → areFieldsSteady index f fs = true
  | [], _, _ => rfl
  | (key, x) :: fs, _, h => by
    rw [Reading.areFieldsSteady, IsPlaceless.isSteady x (h key),
      IsPlaceless.areFieldsSteady fs h]
    rfl
end

end Scalars

end Reading

/-- A filter without ambiguous values; what is not an object is no filter and has none. -/
def Filter.isSteady (index : Index) : Value → Bool
  | .object fs => Reading.areFieldsSteady index (Reading.ofCondition index .root) fs
  | _ => true

end TypedDocs
