import TypedDocs.Filter.Cast
import TypedDocs.Proofs.Cast.Chain
import TypedDocs.Proofs.Document.Walk
import TypedDocs.Proofs.Operator

/-!
# How each reading casts a value

The cast of a value depends on its plan only. The equations below give the cast of
each reading from what the index says about the location and from the shape of the
value, with promotion as one step down the index. Nothing is assumed of the index.
-/

namespace TypedDocs

namespace Reading

variable {index : Index} {r r' : Reading} {v : Value} {p : FieldPath} {t : ScalarType}

section Plans

attribute [local simp] cast

theorem cast_of_keep (h : (r.plan index v).step = .keep) :
    r.cast index v = .ok (Value.wrap (r.plan index v).wraps v) := by
  cases v <;> simp [h]

theorem cast_of_reject {e : CastError} (h : (r.plan index v).step = .reject e) :
    r.cast index v = .error e := by
  cases v <;> simp [h]

theorem cast_of_convert (h : (r.plan index v).step = .convert t) :
    r.cast index v = (t.coerce v).map (Value.wrap (r.plan index v).wraps) := by
  cases v <;> simp [h]

theorem cast_of_items {xs : List Value} {f : Nat → Reading}
    (h : (r.plan index (.array xs)).step = .items f) :
    r.cast index (.array xs) = (castItems index f 0 xs).map fun ys =>
      Value.wrap (r.plan index (.array xs)).wraps (.array ys) := by
  rw [cast]
  simp [h]

theorem cast_of_fields {fs : Fields} {f : String → Reading}
    (h : (r.plan index (.object fs)).step = .fields f) :
    r.cast index (.object fs) = (castFields index f fs).map fun gs =>
      Value.wrap (r.plan index (.object fs)).wraps (.object gs) := by
  rw [cast]
  simp [h]

theorem cast_of_plan_keep (h : r.plan index v = .keep) : r.cast index v = .ok v := by
  rw [cast_of_keep (by rw [h]; rfl), h]
  rfl

theorem cast_of_plan_items {xs : List Value} {f : Nat → Reading}
    (h : r.plan index (.array xs) = ⟨0, .items f⟩) :
    r.cast index (.array xs) = (castItems index f 0 xs).map .array := by
  rw [cast_of_items (by rw [h]), h]
  rfl

theorem cast_of_plan_fields {fs : Fields} {f : String → Reading}
    (h : r.plan index (.object fs) = ⟨0, .fields f⟩) :
    r.cast index (.object fs) = (castFields index f fs).map .object := by
  rw [cast_of_fields (by rw [h]), h]
  rfl

/-- Readings with one plan for a value cast it alike. -/
theorem cast_congr (h : r.plan index v = r'.plan index v) :
    r.cast index v = r'.cast index v := by
  cases v <;> simp only [cast, h]

/-- A plan that wraps once more casts as before and wraps once more. -/
theorem cast_wrapped (h : r.plan index v = (r'.plan index v).wrapped 1) :
    r.cast index v = (r'.cast index v).map fun u => .array [u] := by
  cases v <;> simp only [cast, h, Plan.wrapped] <;> cases (r'.plan index _).step <;>
    first | rfl | simp only [Except.map_map, Value.wrap]

end Plans

section Locations

theorem cast_location_null : (location p).cast index .null = .ok .null :=
  cast_of_plan_keep rfl

theorem plan_location (hnull : v.isNull = false) (h : (index.lookup p.schema).isArray = false) :
    (location p).plan index v = ⟨0, Plan.atRest index p v⟩ := by
  cases v <;> simp_all [plan, Plan.location, Value.isNull]

theorem plan_location_array (hnull : v.isNull = false)
    (h : (index.lookup p.schema).isArray = true) :
    (location p).plan index v = Plan.array index p v := by
  cases v <;> simp_all [plan, Plan.location, Value.isNull]

/-- A location of which nothing is known keeps any operand. -/
theorem plan_location_unknown
    (h : index.lookup p.schema = .undeclared ∨ index.lookup p.schema = .untyped) :
    (location p).plan index v = .keep := by
  cases hnull : v.isNull with
  | true =>
    obtain rfl := Value.eq_null hnull
    rfl
  | false =>
    rw [plan_location hnull (by rcases h with h | h <;> simp [h, Lookup.isArray])]
    rcases h with h | h <;> simp [Plan.atRest, h, Plan.keep]

theorem cast_location_unknown
    (h : index.lookup p.schema = .undeclared ∨ index.lookup p.schema = .untyped) :
    (location p).cast index v = .ok v :=
  cast_of_plan_keep (plan_location_unknown h)

theorem plan_location_scalar (h : index.lookup p.schema = .scalar t) (hnull : v.isNull = false) :
    (location p).plan index v = (scalar t).plan index v := by
  rw [plan_location hnull (by simp [h, Lookup.isArray])]
  simp [Plan.atRest, h, plan]

theorem cast_location_scalar (h : index.lookup p.schema = .scalar t) (hnull : v.isNull = false) :
    (location p).cast index v = (scalar t).cast index v :=
  cast_congr (plan_location_scalar h hnull)

theorem plan_location_object (h : index.lookup p.schema = .object) {fs : Fields} :
    (location p).plan index (.object fs) = ⟨0, .fields (ofCondition index p)⟩ := by
  rw [plan_location rfl (by simp [h, Lookup.isArray])]
  simp [Plan.atRest, h, Plan.conditions]

theorem cast_location_object (h : index.lookup p.schema = .object) {fs : Fields} :
    (location p).cast index (.object fs) =
      (castFields index (ofCondition index p) fs).map .object :=
  cast_of_plan_fields (plan_location_object h)

theorem cast_location_misshapen (h : index.lookup p.schema = .object) (hnull : v.isNull = false)
    (hobject : v.isObject = false) :
    (location p).cast index v = .error (.ofShape v objectName) := by
  apply cast_of_reject
  rw [plan_location hnull (by simp [h, Lookup.isArray])]
  cases v with
  | object fs => cases hobject
  | _ => simp [Plan.atRest, h, Plan.conditions]

end Locations

section Arrays

theorem ofCondition_field {key : String} (h : isOperator key = false) :
    ofCondition index p key = .location (index.resolve p key) :=
  if_neg (by simp [h])

theorem ofCondition_known {key : String} (h : FilterOperator.ofName key ≠ .unknown) :
    ofCondition index p key =
      match FilterOperator.ofName key with
      | .logical => .logical p
      | .comparison => .comparand p
      | .membership => .members (.comparand p)
      | .element selector => .fixed selector.operandType
      | .container => .container p
      | .ignored => .keep
      | .unknown => .foreign key p :=
  if_pos (FilterOperator.isOperator_of_name h)

theorem not_foreign_of_operators (h : isOperatorObject v = true) : isForeignObject v = false := by
  cases v with
  | object fs =>
    simp only [isOperatorObject, List.any_eq_true] at h
    obtain ⟨f, hf, hknown⟩ := h
    simp only [isForeignObject, Bool.and_eq_false_iff, Bool.not_eq_false', List.any_eq_true]
    exact .inr ⟨f, hf, by simp [hknown]⟩
  | _ => rfl

/-- Objects of operators of which none is known are left alone on an array. -/
theorem plan_location_foreign (harray : (index.lookup p.schema).isArray = true)
    (h : isForeignObject v = true) : (location p).plan index v = .keep := by
  have hnull : v.isNull = false := by
    cases v with
    | null => cases h
    | _ => rfl
  rw [plan_location_array hnull harray]
  unfold Plan.array
  rw [if_pos h]

theorem cast_location_foreign (harray : (index.lookup p.schema).isArray = true)
    (h : isForeignObject v = true) : (location p).cast index v = .ok v :=
  cast_of_plan_keep (plan_location_foreign harray h)

theorem plan_location_operators (harray : (index.lookup p.schema).isArray = true) {fs : Fields}
    (h : isOperatorObject (.object fs) = true) :
    (location p).plan index (.object fs) = ⟨0, .fields (ofCondition index p)⟩ := by
  rw [plan_location_array rfl harray]
  unfold Plan.array
  rw [if_neg (by simp [not_foreign_of_operators h]), if_pos h]
  rfl

theorem cast_location_operators (harray : (index.lookup p.schema).isArray = true) {fs : Fields}
    (h : isOperatorObject (.object fs) = true) :
    (location p).cast index (.object fs) =
      (castFields index (ofCondition index p) fs).map .object :=
  cast_of_plan_fields (plan_location_operators harray h)

theorem plan_location_items (harray : (index.lookup p.schema).isArray = true) {xs : List Value} :
    (location p).plan index (.array xs) =
      ⟨0, .items fun i => location (p.child (.index i))⟩ := by
  rw [plan_location_array rfl harray]
  rfl

theorem cast_location_items (harray : (index.lookup p.schema).isArray = true) {xs : List Value} :
    (location p).cast index (.array xs) =
      (castItems index (fun i => location (p.child (.index i))) 0 xs).map .array :=
  cast_of_plan_items (plan_location_items harray)

/-- A value that stands for itself where the items of an array are compared. -/
structure IsSingle (v : Value) : Prop where
  not_null : v.isNull = false
  not_array : v.isArray = false
  not_foreign : isForeignObject v = false
  not_operators : isOperatorObject v = false

theorem IsSingle.plan_array (h : IsSingle v) : Plan.array index p v =
    ⟨(index.operandLanding p).1, Plan.atRest index (index.operandLanding p).2 v⟩ := by
  unfold Plan.array
  rw [if_neg (by simp [h.not_foreign]), if_neg (by simp [h.not_operators])]
  cases v with
  | array xs => cases h.not_array
  | _ => rfl

/-- The ways in which an operand can stand on an array. -/
theorem operand_cases (v : Value) :
    v = .null ∨ (∃ xs, v = .array xs) ∨ isForeignObject v = true ∨
      (∃ fs, v = .object fs ∧ isOperatorObject (.object fs) = true) ∨ IsSingle v := by
  cases v with
  | null => exact .inl rfl
  | array xs => exact .inr (.inl ⟨xs, rfl⟩)
  | object fs =>
    cases hf : isForeignObject (.object fs) with
    | true => exact .inr (.inr (.inl rfl))
    | false =>
      cases ho : isOperatorObject (.object fs) with
      | true => exact .inr (.inr (.inr (.inl ⟨fs, rfl, ho⟩)))
      | false => exact .inr (.inr (.inr (.inr ⟨rfl, rfl, hf, ho⟩)))
  | _ => exact .inr (.inr (.inr (.inr ⟨rfl, rfl, rfl, rfl⟩)))

theorem plan_location_single (harray : (index.lookup p.schema).isArray = true)
    (h : IsSingle v) : (location p).plan index v =
      ((location (p.child (.index 0))).plan index v).wrapped 1 := by
  rw [plan_location_array h.not_null harray, h.plan_array, Index.operandLanding, dif_pos harray]
  cases hchild : (index.lookup (p.child (.index 0)).schema).isArray with
  | true => rw [plan_location_array h.not_null hchild, h.plan_array]; rfl
  | false =>
    rw [plan_location h.not_null hchild, Index.operandLanding, dif_neg (by simp [hchild])]
    rfl

/-- A single value becomes the only item of an array. -/
theorem cast_location_single (harray : (index.lookup p.schema).isArray = true)
    (h : IsSingle v) : (location p).cast index v =
      ((location (p.child (.index 0))).cast index v).map fun u => .array [u] :=
  cast_wrapped (plan_location_single harray h)

end Arrays

section Comparands

theorem plan_comparand (h : (index.lookup p.schema).isArray = false) :
    (comparand p).plan index v = (location p).plan index v := by
  simp [plan, Plan.comparand, h]

theorem plan_comparand_null : (comparand p).plan index .null = .keep := by
  simp [plan, Plan.comparand, Plan.location]

theorem cast_comparand_null : (comparand p).cast index .null = .ok .null :=
  cast_of_plan_keep plan_comparand_null

variable (harray : (index.lookup p.schema).isArray = true)
include harray

theorem plan_comparand_items {xs : List Value} :
    (comparand p).plan index (.array xs) = (location p).plan index (.array xs) := by
  simp [plan, Plan.comparand, harray]

theorem plan_comparand_foreign (h : isForeignObject v = true) :
    (comparand p).plan index v = .keep := by
  cases v with
  | object fs => simp [plan, Plan.comparand, harray, h]
  | _ => cases h

theorem cast_comparand_foreign (h : isForeignObject v = true) :
    (comparand p).cast index v = .ok v :=
  cast_of_plan_keep (plan_comparand_foreign harray h)

theorem plan_comparand_operators {fs : Fields} (h : isOperatorObject (.object fs) = true) :
    (comparand p).plan index (.object fs) = ⟨0, .fields (ofCondition index p)⟩ := by
  simp [plan, Plan.comparand, harray, not_foreign_of_operators h, h, Plan.conditions]

theorem plan_comparand_single (h : IsSingle v) :
    (comparand p).plan index v = (location p.element).plan index v := by
  have hn := h.not_null
  have ha := h.not_array
  cases v with
  | null => cases hn
  | array xs => cases ha
  | _ => simp [plan, Plan.comparand, harray, h.not_foreign, h.not_operators]

theorem cast_comparand_single (h : IsSingle v) :
    (comparand p).cast index v = (location p.element).cast index v :=
  cast_congr (plan_comparand_single harray h)

end Comparands

section Lists

variable {item : Reading} {xs : List Value} {i : Nat}

theorem cast_members_null : (members item).cast index .null = .ok .null :=
  cast_of_keep rfl

theorem cast_members_items : (members item).cast index (.array xs) =
    (castItems index (fun _ => item) 0 xs).map .array :=
  cast_of_items rfl

theorem plan_members_single (hnull : v.isNull = false) (harray : v.isArray = false) :
    (members item).plan index v = (item.plan index v).wrapped 1 := by
  cases v with
  | null => cases hnull
  | array xs => cases harray
  | _ => rfl

theorem cast_members_single (hnull : v.isNull = false) (harray : v.isArray = false) :
    (members item).cast index v = (item.cast index v).map fun u => .array [u] :=
  cast_wrapped (plan_members_single hnull harray)

theorem cast_logical_items : (logical p).cast index (.array xs) =
    (castItems index (.subfilter p) 0 xs).map .array :=
  cast_of_items rfl

theorem plan_logical_single (harray : v.isArray = false) :
    (logical p).plan index v = ((subfilter p 0).plan index v).wrapped 1 := by
  cases v with
  | array xs => cases harray
  | _ => rfl

theorem cast_logical_single (harray : v.isArray = false) : (logical p).cast index v =
    ((subfilter p 0).cast index v).map fun u => .array [u] :=
  cast_wrapped (plan_logical_single harray)

theorem plan_subfilter_root {fs : Fields} (hroot : p.isRoot = true) :
    (subfilter p i).plan index (.object fs) = ⟨0, .fields (ofCondition index p)⟩ := by
  simp [plan, Plan.subfilter, hroot, Plan.conditions]

theorem cast_subfilter_root {fs : Fields} (hroot : p.isRoot = true) :
    (subfilter p i).cast index (.object fs) =
      (castFields index (ofCondition index p) fs).map .object :=
  cast_of_plan_fields (plan_subfilter_root hroot)

theorem cast_subfilter_root_misshapen (hroot : p.isRoot = true) (hobject : v.isObject = false) :
    (subfilter p i).cast index v = .error (.ofShape v objectName) := by
  apply cast_of_reject
  cases v with
  | object fs => cases hobject
  | _ => simp [plan, Plan.subfilter, hroot, Plan.conditions]

theorem plan_subfilter_location (hroot : p.isRoot = false)
    (harray : (index.lookup p.schema).isArray = false) :
    (subfilter p i).plan index v = (location p).plan index v := by
  simp [plan, Plan.subfilter, hroot, harray]

theorem cast_subfilter_location (hroot : p.isRoot = false)
    (harray : (index.lookup p.schema).isArray = false) :
    (subfilter p i).cast index v = (location p).cast index v :=
  cast_congr (plan_subfilter_location hroot harray)

theorem plan_subfilter_operators {fs : Fields} (hroot : p.isRoot = false)
    (harray : (index.lookup p.schema).isArray = true) (h : isOperatorObject (.object fs) = true) :
    (subfilter p i).plan index (.object fs) = ⟨0, .fields (ofCondition index p)⟩ := by
  simp [plan, Plan.subfilter, hroot, harray, h, Plan.conditions]

theorem plan_subfilter_items (hroot : p.isRoot = false)
    (harray : (index.lookup p.schema).isArray = true) :
    (subfilter p i).plan index (.array xs) = (location p).plan index (.array xs) := by
  rw [← plan_comparand_items harray]
  simp [plan, Plan.subfilter, hroot, harray, isOperatorObject, Value.isArray]

theorem plan_subfilter_single (hroot : p.isRoot = false)
    (harray : (index.lookup p.schema).isArray = true) (ha : v.isArray = false)
    (ho : isOperatorObject v = false) :
    (subfilter p i).plan index v = (location (p.child (.index i))).plan index v := by
  simp [plan, Plan.subfilter, hroot, harray, ho, ha]

theorem cast_subfilter_single (hroot : p.isRoot = false)
    (harray : (index.lookup p.schema).isArray = true) (ha : v.isArray = false)
    (ho : isOperatorObject v = false) :
    (subfilter p i).cast index v = (location (p.child (.index i))).cast index v :=
  cast_congr (plan_subfilter_single hroot harray ha ho)

end Lists

section Scalars

/-- A name in the tables is written as an operator, so the table alone decides. -/
theorem ofScalarOperand_eq {key : String} : ofScalarOperand t key =
    match FilterOperator.ofName key with
    | .comparison => .scalar t
    | .membership | .logical => .members (.scalar t)
    | .element selector => .fixed selector.operandType
    | .container | .ignored | .unknown => .keep := by
  by_cases hop : isOperator key = true
  · exact if_pos hop
  · have hunknown : FilterOperator.ofName key = .unknown :=
      Decidable.byContradiction fun h => hop (FilterOperator.isOperator_of_name h)
    rw [ofScalarOperand, if_neg hop, hunknown]

theorem cast_fixed : (fixed t).cast index v = t.coerce v := by
  rw [cast_of_convert rfl]
  exact congrFun Except.map_id _

theorem cast_scalar_satisfied (h : t.satisfies v = true) : (scalar t).cast index v = .ok v := by
  have hplan : (scalar t).plan index v = .keep := by simp [plan, Plan.scalar, h, Plan.keep]
  exact cast_of_plan_keep hplan

/-- An object with operators among its keys. -/
def hasOperators : Value → Bool
  | .object fs => fs.any fun f => isOperator f.1
  | _ => false

theorem object_of_hasOperators (h : hasOperators v = true) : ∃ fs, v = .object fs := by
  cases v with
  | object fs => exact ⟨fs, rfl⟩
  | _ => cases h

/-- Only an object with an operator among its keys can fail to stand for itself. -/
theorem isSingle_of_no_operators (hnull : v.isNull = false) (harray : v.isArray = false)
    (ho : hasOperators v = false) : IsSingle v := by
  refine ⟨hnull, harray, ?_, ?_⟩
  · cases v with
    | object fs =>
      simp only [hasOperators] at ho
      simp [isForeignObject, ho]
    | _ => rfl
  · cases v with
    | object fs =>
      simp only [hasOperators, List.any_eq_false] at ho
      simp only [isOperatorObject, List.any_eq_false]
      exact fun f hf hknown => ho f hf (isOperator_of_known hknown)
    | _ => rfl

theorem cast_scalar_operators {fs : Fields} (h : t.satisfies (.object fs) = false)
    (ho : hasOperators (.object fs) = true) : (scalar t).cast index (.object fs) =
      (castFields index (ofScalarOperand t) fs).map .object := by
  have hplan : (scalar t).plan index (.object fs) = ⟨0, .fields (ofScalarOperand t)⟩ := by
    simp only [plan, Plan.scalar]
    rw [if_neg (by simp [h]), if_pos (show (fs.any fun f => isOperator f.1) = true from ho)]
  exact cast_of_plan_fields hplan

theorem cast_scalar_literal (ho : hasOperators v = false) :
    (scalar t).cast index v = t.coerce v := by
  cases h : t.satisfies v with
  | true =>
    rw [cast_scalar_satisfied h, ScalarType.coerce_of_accepts (by simp [ScalarType.accepts, h])]
  | false =>
    have hplan : (scalar t).plan index v = ⟨0, .convert t⟩ := by
      simp only [plan, Plan.scalar]
      rw [if_neg (by simp [h])]
      cases v with
      | object fs => simp only [hasOperators] at ho; simp [ho]
      | _ => rfl
    rw [cast_of_convert (by rw [hplan]), hplan]
    exact congrFun Except.map_id _

end Scalars

section Containers

theorem plan_container_conditions {fs : Fields}
    (h : index.lookup p.element.schema = .array ∨ index.lookup p.element.schema = .object) :
    (container p).plan index (.object fs) = ⟨0, .fields (ofCondition index p.element)⟩ := by
  rcases h with h | h <;> simp [plan, Plan.container, h, Plan.conditions]

theorem cast_container_conditions {fs : Fields}
    (h : index.lookup p.element.schema = .array ∨ index.lookup p.element.schema = .object) :
    (container p).cast index (.object fs) =
      (castFields index (ofCondition index p.element) fs).map .object :=
  cast_of_plan_fields (plan_container_conditions h)

theorem cast_container_misshapen
    (h : index.lookup p.element.schema = .array ∨ index.lookup p.element.schema = .object)
    (hobject : v.isObject = false) :
    (container p).cast index v = .error (.ofShape v objectName) := by
  apply cast_of_reject
  cases v with
  | object fs => cases hobject
  | _ => rcases h with h | h <;> simp [plan, Plan.container, h, Plan.conditions]

theorem plan_container_scalar (h : index.lookup p.element.schema = .scalar t) :
    (container p).plan index v = (scalar t).plan index v := by
  simp [plan, Plan.container, h]

theorem cast_container_scalar (h : index.lookup p.element.schema = .scalar t) :
    (container p).cast index v = (scalar t).cast index v :=
  cast_congr (plan_container_scalar h)

end Containers

section Parts

variable {f : Nat → Reading} {g : String → Reading}

theorem castItems_cons {i : Nat} {x : Value} {xs : List Value} :
    castItems index f i (x :: xs) = ((f i).cast index x).bind fun y =>
      (castItems index f (i + 1) xs).map fun ys => y :: ys := by
  rw [castItems]
  rfl

theorem castFields_cons {key : String} {x : Value} {fs : Fields} :
    castFields index g ((key, x) :: fs) = ((g key).cast index x).bind fun y =>
      (castFields index g fs).map fun gs => (key, y) :: gs := by
  rw [castFields]
  rfl

theorem castFields_singleton {key : String} {x : Value} :
    castFields index g [(key, x)] = ((g key).cast index x).map fun y => [(key, y)] := by
  rw [castFields_cons]
  cases (g key).cast index x <;> rfl

theorem castItems_of_kept {xs : List Value} {i : Nat}
    (h : ∀ x ∈ xs, ∀ j, (f j).cast index x = .ok x) : castItems index f i xs = .ok xs := by
  induction xs generalizing i with
  | nil => rfl
  | cons x xs ih =>
    rw [castItems_cons, h x List.mem_cons_self,
      ih fun y hy => h y (List.mem_cons_of_mem _ hy)]
    rfl

theorem castFields_of_kept {fs : Fields}
    (h : ∀ first ∈ fs, (g first.1).cast index first.2 = .ok first.2) :
    castFields index g fs = .ok fs := by
  induction fs with
  | nil => rfl
  | cons first fs ih =>
    obtain ⟨key, x⟩ := first
    have hx : (g key).cast index x = .ok x := h _ List.mem_cons_self
    rw [castFields_cons, hx, ih fun field hmem => h field (List.mem_cons_of_mem _ hmem)]
    rfl

theorem cast_members_of_kept {item : Reading} {xs : List Value}
    (h : ∀ x ∈ xs, item.cast index x = .ok x) :
    (members item).cast index (.array xs) = .ok (.array xs) := by
  rw [cast_members_items, castItems_of_kept fun x hx _ => h x hx]
  rfl

/-- Every item of a cast list is the cast of the item at its place. -/
theorem getElem?_of_castItems {i j : Nat} {xs ys : List Value} {y : Value}
    (h : castItems index f i xs = .ok ys) (hy : ys[j]? = some y) :
    ∃ x, xs[j]? = some x ∧ (f (i + j)).cast index x = .ok y := by
  induction xs generalizing i j ys with
  | nil =>
    simp only [castItems] at h
    cases h
    cases hy
  | cons x xs ih =>
    rw [castItems_cons] at h
    obtain ⟨z, hz, h⟩ := Except.bind_eq_ok_iff.1 h
    obtain ⟨zs, hzs, rfl⟩ := Except.map_eq_ok_iff.1 h
    cases j with
    | zero => cases hy; exact ⟨x, rfl, hz⟩
    | succ j =>
      obtain ⟨u, hu, hcast⟩ := ih hzs hy
      exact ⟨u, hu, by rwa [Nat.add_assoc, Nat.add_comm 1 j] at hcast⟩

theorem mem_of_castItems {i : Nat} {xs ys : List Value} {y : Value}
    (h : castItems index f i xs = .ok ys) (hy : y ∈ ys) :
    ∃ x ∈ xs, ∃ j, (f j).cast index x = .ok y := by
  obtain ⟨j, hj⟩ := List.mem_iff_getElem?.1 hy
  obtain ⟨x, hx, hcast⟩ := getElem?_of_castItems h hj
  exact ⟨x, List.mem_of_getElem? hx, _, hcast⟩

theorem mem_of_castFields {fs gs : Fields} {key : String} {y : Value}
    (h : castFields index g fs = .ok gs) (hy : (key, y) ∈ gs) :
    ∃ x, (key, x) ∈ fs ∧ (g key).cast index x = .ok y := by
  induction fs generalizing gs with
  | nil =>
    simp only [castFields] at h
    cases h
    cases hy
  | cons first fs ih =>
    obtain ⟨k, x⟩ := first
    rw [castFields_cons] at h
    obtain ⟨z, hz, h⟩ := Except.bind_eq_ok_iff.1 h
    obtain ⟨zs, hzs, rfl⟩ := Except.map_eq_ok_iff.1 h
    rcases List.mem_cons.1 hy with heq | hy
    · cases heq; exact ⟨x, List.mem_cons_self, hz⟩
    · obtain ⟨u, hu, hcast⟩ := ih hzs hy
      exact ⟨u, List.mem_cons_of_mem _ hu, hcast⟩

/-- Casting fields leaves their names as they are. -/
theorem any_of_castFields {fs gs : Fields} (h : castFields index g fs = .ok gs)
    (q : String → Bool) : (gs.any fun f => q f.1) = fs.any fun f => q f.1 := by
  induction fs generalizing gs with
  | nil =>
    simp only [castFields] at h
    cases h
    rfl
  | cons first fs ih =>
    obtain ⟨k, x⟩ := first
    rw [castFields_cons] at h
    obtain ⟨z, hz, h⟩ := Except.bind_eq_ok_iff.1 h
    obtain ⟨zs, hzs, rfl⟩ := Except.map_eq_ok_iff.1 h
    simp only [List.any_cons, ih hzs]

/-- A reading that takes items, and a single value as the only item, casts what is promoted. -/
theorem cast_promoted
    (hitems : ∀ xs, r.cast index (.array xs) = (castItems index f 0 xs).map .array)
    (hsingle : v.isArray = false →
      r.cast index v = ((f 0).cast index v).map fun u => .array [u]) :
    r.cast index v = (castItems index f 0 v.promoted).map .array := by
  cases v with
  | array xs => exact hitems xs
  | _ =>
    rw [hsingle rfl, Value.promoted, castItems_cons]
    · cases (f 0).cast index _ <;> rfl
    · exact fun _ h => nomatch h

theorem cast_members_promoted {item : Reading} (hnull : v.isNull = false) :
    (members item).cast index v = (castItems index (fun _ => item) 0 v.promoted).map .array :=
  cast_promoted (fun _ => cast_members_items) (cast_members_single hnull)

theorem cast_logical_promoted :
    (logical p).cast index v = (castItems index (.subfilter p) 0 v.promoted).map .array :=
  cast_promoted (fun _ => cast_logical_items) cast_logical_single

/-- A cast list of values is `null` or an array of casts. -/
theorem cases_of_members {item : Reading} {u : Value} (h : (members item).cast index u = .ok v) :
    v = .null ∨ ∃ ys, v = .array ys ∧
      ∀ y ∈ ys, ∃ x, sizeOf x ≤ sizeOf u ∧ item.cast index x = .ok y := by
  cases hnull : u.isNull with
  | true =>
    obtain rfl := Value.eq_null hnull
    rw [cast_members_null] at h
    cases h
    exact .inl rfl
  | false =>
    rw [cast_members_promoted hnull] at h
    obtain ⟨ys, hys, rfl⟩ := Except.map_eq_ok_iff.1 h
    refine .inr ⟨ys, rfl, fun y hy => ?_⟩
    obtain ⟨x, hx, -, hcast⟩ := mem_of_castItems hys hy
    exact ⟨x, sizeOf_le_of_promoted hx, hcast⟩

/-- A cast list of sub-filters is an array of casts. -/
theorem items_of_logical {u : Value} (h : (logical p).cast index u = .ok v) :
    ∃ ys, v = .array ys ∧
      ∀ y ∈ ys, ∃ x i, sizeOf x ≤ sizeOf u ∧ (subfilter p i).cast index x = .ok y := by
  rw [cast_logical_promoted] at h
  obtain ⟨ys, hys, rfl⟩ := Except.map_eq_ok_iff.1 h
  refine ⟨ys, rfl, fun y hy => ?_⟩
  obtain ⟨x, hx, i, hcast⟩ := mem_of_castItems hys hy
  exact ⟨x, i, sizeOf_le_of_promoted hx, hcast⟩

end Parts

end Reading

namespace Filter

/-- A filter with one field is cast by casting the operand of the field. -/
theorem cast_single_field {index : Index} {key : String} {v : Value}
    (hkey : isOperator key = false) : cast index (.object [(key, v)]) =
      ((Reading.location (index.resolve .root key)).cast index v).map
        fun u => .object [(key, u)] := by
  rw [cast, Reading.castFields_singleton, Reading.ofCondition_field hkey, Except.map_map]

end Filter

end TypedDocs
