import TypedDocs.Proofs.Filter.Wrappers

/-!
# Operands that are comparable with a type

A comparable operand is `null`, a value of the type, or an object of operators whose
operands are comparable in turn, each as its operator asks. On an array the operand
may also be a list of such values, or conditions on the array and its items. Both are
defined by the operators alone; what a cast makes of an operand is shown to be one.
-/

namespace TypedDocs

namespace FilterOperator

/-- Operators whose operand is a list. -/
def takesList : FilterOperator → Bool
  | logical | membership => true
  | _ => false

/-- Operators whose operand is compared with the field or has a type of its own. -/
def castsOperand : FilterOperator → Bool
  | logical | comparison | membership | element _ => true
  | container | ignored | unknown => false

/-- The operands of an operator, given the values that may be compared. -/
inductive Admits (P : Value → Prop) : FilterOperator → Value → Prop
  | compared {v : Value} : P v → Admits P .comparison v
  | unlisted {op : FilterOperator} : op.takesList = true → Admits P op .null
  | listed {op : FilterOperator} {xs : List Value} :
      op.takesList = true → (∀ x ∈ xs, P x) → Admits P op (.array xs)
  | fixed {selector : ElementSelector} {v : Value} :
      selector.operandType.accepts v = true → Admits P (.element selector) v
  | uncast {op : FilterOperator} {v : Value} : op.castsOperand = false → Admits P op v

end FilterOperator

open FilterOperator Reading

/-- Values that may be compared with a field of a scalar type. -/
inductive Comparable (t : ScalarType) : Value → Prop
  | accepted {v : Value} : t.accepts v = true → Comparable t v
  | operators {fs : Fields} : hasOperators (.object fs) = true →
      (∀ f ∈ fs, Admits (Comparable t) (ofName f.1) f.2) → Comparable t (.object fs)

/-- Values that may be compared with an array of items of a scalar type. -/
inductive ItemsComparable (t : ScalarType) : Value → Prop
  | single {v : Value} : v.isArray = false → isOperatorObject v = false → Comparable t v →
      ItemsComparable t v
  | whole {xs : List Value} : (∀ x ∈ xs, Comparable t x) → ItemsComparable t (.array xs)
  | operators {fs : Fields} : isOperatorObject (.object fs) = true →
      (∀ f ∈ fs, Admits (ItemsComparable t) (ofName f.1) f.2) →
      (∀ f ∈ fs, ofName f.1 = .container → Comparable t f.2) → ItemsComparable t (.object fs)

section Scalars

variable {index : Index} {t : ScalarType} {u v : Value} {key : String}

theorem admits_of_members {P : Value → Prop} {op : FilterOperator} {item : Reading}
    (hop : op.takesList = true)
    (ih : ∀ x y, sizeOf x ≤ sizeOf u → item.cast index x = .ok y → P y)
    (h : (members item).cast index u = .ok v) : Admits P op v := by
  rcases cases_of_members h with rfl | ⟨ys, rfl, hys⟩
  · exact .unlisted hop
  · refine .listed hop fun y hy => ?_
    obtain ⟨x, hx, hcast⟩ := hys y hy
    exact ih x y hx hcast

/-- Each reading of an operand on a scalar casts it to what its operator admits. -/
theorem admits_of_scalarOperand
    (ih : ∀ x y, sizeOf x ≤ sizeOf u → (scalar t).cast index x = .ok y → Comparable t y)
    (h : (ofScalarOperand t key).cast index u = .ok v) : Admits (Comparable t) (ofName key) v := by
  cases hop : ofName key with
  | comparison =>
    rw [ofScalarOperand_eq, hop] at h
    exact .compared (ih u v (Nat.le_refl _) h)
  | membership =>
    rw [ofScalarOperand_eq, hop] at h
    exact admits_of_members rfl ih h
  | logical =>
    rw [ofScalarOperand_eq, hop] at h
    exact admits_of_members rfl ih h
  | element selector =>
    rw [ofScalarOperand_eq, hop] at h
    simp only [cast_fixed] at h
    exact .fixed (selector.lawful_operandType.accepts_of_coerce h)
  | _ => exact .uncast rfl

/-- A successful cast on a scalar leaves nothing that could not be compared with it. -/
theorem comparable_of_cast (ht : t.Lawful) (u v : Value)
    (h : (scalar t).cast index u = .ok v) : Comparable t v := by
  cases hsat : t.satisfies u with
  | true =>
    rw [cast_scalar_satisfied hsat] at h
    cases h
    exact .accepted (by simp [ScalarType.accepts, hsat])
  | false =>
    cases hops : hasOperators u with
    | false =>
      rw [cast_scalar_literal hops] at h
      exact .accepted (ht.accepts_of_coerce h)
    | true =>
      obtain ⟨fs, hu⟩ := object_of_hasOperators hops
      -- The equation is kept: the recursion below has to see that `u` is this object.
      rw [hu] at h hsat hops
      rw [cast_scalar_operators hsat hops] at h
      obtain ⟨gs, hgs, rfl⟩ := Except.map_eq_ok_iff.1 h
      refine .operators ?_ fun f hf => ?_
      · rw [hasOperators, any_of_castFields hgs isOperator]
        exact hops
      · obtain ⟨x, hx, hcast⟩ := mem_of_castFields hgs hf
        have hlt : sizeOf x < sizeOf u := hu ▸ sizeOf_lt_of_field hx
        exact admits_of_scalarOperand (fun y z hle hyz => comparable_of_cast ht y z hyz) hcast
termination_by sizeOf u
decreasing_by omega

/-- What an operator on a scalar admits is kept by its reading. -/
theorem cast_scalarOperand_of_admits
    (ih : ∀ y, sizeOf y ≤ sizeOf x → Comparable t y → (scalar t).cast index y = .ok y)
    (h : Admits (Comparable t) (ofName key) x) :
    (ofScalarOperand t key).cast index x = .ok x := by
  rw [ofScalarOperand_eq]
  generalize ofName key = op at h
  cases h with
  | compared hx => exact ih x (Nat.le_refl _) hx
  | unlisted hlist =>
    cases op with
    | logical => exact cast_members_null
    | membership => exact cast_members_null
    | _ => cases hlist
  | listed hlist hxs =>
    have hkept : ∀ y ∈ _, (scalar t).cast index y = .ok y := fun y hy =>
      ih y (Nat.le_of_lt (sizeOf_lt_of_item hy)) (hxs y hy)
    cases op with
    | logical => exact cast_members_of_kept hkept
    | membership => exact cast_members_of_kept hkept
    | _ => cases hlist
  | fixed haccepts => exact cast_fixed.trans (ScalarType.coerce_of_accepts haccepts)
  | uncast huncast =>
    cases op with
    | container => exact cast_of_plan_keep rfl
    | ignored => exact cast_of_plan_keep rfl
    | unknown => exact cast_of_plan_keep rfl
    | _ => cases huncast

/-- Whatever may be compared with a scalar type is left as it is by a comparison with it. -/
theorem cast_of_comparable (v : Value) (h : Comparable t v) : (scalar t).cast index v = .ok v := by
  cases hsat : t.satisfies v with
  | true => exact cast_scalar_satisfied hsat
  | false =>
    cases h with
    | accepted haccepts =>
      have hnull : v.isNull = true := by simpa [ScalarType.accepts, hsat] using haccepts
      obtain rfl := Value.eq_null hnull
      exact cast_scalar_literal rfl
    | operators hops hfs =>
      rw [cast_scalar_operators hsat hops, castFields_of_kept fun g hg => ?_]
      · rfl
      · have hlt : sizeOf g.2 < sizeOf (Value.object _) := sizeOf_lt_of_field hg
        exact cast_scalarOperand_of_admits (fun y hle hy => cast_of_comparable y hy) (hfs g hg)
termination_by sizeOf v
decreasing_by simp_all; omega

end Scalars

section Literals

variable {index : Index} {t : ScalarType} {u v : Value}

theorem isSingle_of_wrapper (h : isValueWrapper v = true) : IsSingle v := by
  obtain ⟨name, inner, hname, rfl⟩ := eq_of_isValueWrapper h
  refine ⟨rfl, rfl, ?_, ?_⟩
  · simp [isForeignObject, hname]
  · simp [isOperatorObject, isKnownOperator, (unknown_of_mem_valueWrappers hname).2]

/-- No value of a built-in type is an array or reads as operators. -/
theorem isSingle_of_satisfies (ht : t.IsBuiltin) (h : t.satisfies v = true) : IsSingle v := by
  rcases ht.cases_of_satisfies h with ⟨hnull, harray, hobject⟩ | hwrapper
  · cases v with
    | object fs => cases hobject
    | _ => exact ⟨hnull, harray, rfl, rfl⟩
  · exact isSingle_of_wrapper hwrapper

theorem literal_of_accepts (ht : t.IsBuiltin) (h : t.accepts v = true) :
    v.isArray = false ∧ isOperatorObject v = false := by
  rcases Bool.or_eq_true_iff.1 h with hnull | hsat
  · obtain rfl := Value.eq_null hnull
    exact ⟨rfl, rfl⟩
  · have hsingle := isSingle_of_satisfies ht hsat
    exact ⟨hsingle.not_array, hsingle.not_operators⟩

/-- Unless it reads as operators, an operand is cast to a value that stands for one item. -/
theorem single_of_cast (ht : t.IsBuiltin) (hu : isOperatorObject u = false)
    (h : (scalar t).cast index u = .ok v) : ItemsComparable t v := by
  have hlawful := ht.lawful
  have hcomparable := comparable_of_cast hlawful u v h
  have hliteral : v.isArray = false ∧ isOperatorObject v = false := by
    cases hsat : t.satisfies u with
    | true =>
      rw [cast_scalar_satisfied hsat] at h
      cases h
      exact literal_of_accepts ht (by simp [ScalarType.accepts, hsat])
    | false =>
      cases hops : hasOperators u with
      | false =>
        rw [cast_scalar_literal hops] at h
        exact literal_of_accepts ht (hlawful.accepts_of_coerce h)
      | true =>
        obtain ⟨fs, rfl⟩ := object_of_hasOperators hops
        rw [cast_scalar_operators hsat hops] at h
        obtain ⟨gs, hgs, rfl⟩ := Except.map_eq_ok_iff.1 h
        refine ⟨rfl, ?_⟩
        rw [isOperatorObject, any_of_castFields hgs isKnownOperator]
        exact hu
  exact .single hliteral.1 hliteral.2 hcomparable

end Literals

section Items

variable {index : Index} {p : FieldPath} {r : Reading} {t : ScalarType} {u v : Value}
  {key : String}

/-- The readings of an operand that is set against the items of an array. -/
inductive ReadsItems (p : FieldPath) : Reading → Prop
  | location : ReadsItems p (.location p)
  | comparand : ReadsItems p (.comparand p)
  | subfilter (i : Nat) : ReadsItems p (.subfilter p i)

theorem ReadsItems.plan_items (hr : ReadsItems p r) (hroot : p.isRoot = false)
    (harray : (index.lookup p.schema).isArray = true) {xs : List Value} :
    r.plan index (.array xs) = ⟨0, .items fun i => .location (p.child (.index i))⟩ := by
  cases hr with
  | location => exact plan_location_items harray
  | comparand => exact (plan_comparand_items harray).trans (plan_location_items harray)
  | subfilter i => exact (plan_subfilter_items hroot harray).trans (plan_location_items harray)

theorem ReadsItems.cast_items (hr : ReadsItems p r) (hroot : p.isRoot = false)
    (harray : (index.lookup p.schema).isArray = true) {xs : List Value} :
    r.cast index (.array xs) =
      (castItems index (fun i => .location (p.child (.index i))) 0 xs).map .array :=
  cast_of_plan_items (hr.plan_items hroot harray)

theorem ReadsItems.plan_operators (hr : ReadsItems p r) (hroot : p.isRoot = false)
    (harray : (index.lookup p.schema).isArray = true) {fs : Fields}
    (h : isOperatorObject (.object fs) = true) :
    r.plan index (.object fs) = ⟨0, .fields (ofCondition index p)⟩ := by
  cases hr with
  | location => exact plan_location_operators harray h
  | comparand => exact plan_comparand_operators harray h
  | subfilter i => exact plan_subfilter_operators hroot harray h

theorem ReadsItems.cast_operators (hr : ReadsItems p r) (hroot : p.isRoot = false)
    (harray : (index.lookup p.schema).isArray = true) {fs : Fields}
    (h : isOperatorObject (.object fs) = true) :
    r.cast index (.object fs) = (castFields index (ofCondition index p) fs).map .object :=
  cast_of_plan_fields (hr.plan_operators hroot harray h)

/-- The cast of an operand at an item of a scalar type. -/
theorem itemsComparable_of_item (ht : t.IsBuiltin)
    (hp : index.lookup p.schema = .scalar t) (hu : isOperatorObject u = false)
    (h : (location p).cast index u = .ok v) : ItemsComparable t v := by
  cases hnull : u.isNull with
  | true =>
    obtain rfl := Value.eq_null hnull
    rw [cast_location_null] at h
    cases h
    exact .single rfl rfl (.accepted rfl)
  | false =>
    rw [cast_location_scalar hp hnull] at h
    exact single_of_cast ht hu h

theorem comparable_of_item (ht : t.IsBuiltin)
    (hp : index.lookup p.schema = .scalar t) (h : (location p).cast index u = .ok v) :
    Comparable t v := by
  cases hnull : u.isNull with
  | true =>
    obtain rfl := Value.eq_null hnull
    rw [cast_location_null] at h
    cases h
    exact .accepted rfl
  | false =>
    rw [cast_location_scalar hp hnull] at h
    exact comparable_of_cast ht.lawful u v h

theorem not_operators_of_foreign (h : isForeignObject u = true) :
    u.isArray = false ∧ isOperatorObject u = false := by
  cases u with
  | object fs =>
    refine ⟨rfl, ?_⟩
    cases ho : isOperatorObject (.object fs) with
    | true =>
      rw [not_foreign_of_operators ho] at h
      cases h
    | false => rfl
  | _ => cases h

/-- An object of unknown operators that nothing was done to. -/
theorem itemsComparable_of_foreign (h : isForeignObject u = true) : ItemsComparable t u := by
  cases u with
  | object fs =>
    have hoperators := (not_operators_of_foreign h).2
    simp only [isForeignObject, Bool.and_eq_true] at h
    refine .single rfl hoperators (.operators h.1 fun f hf => .uncast ?_)
    simp only [isOperatorObject, List.any_eq_false] at hoperators
    have hunknown := hoperators f hf
    rw [isKnownOperator, decide_eq_true_iff, ne_eq, Decidable.not_not] at hunknown
    rw [hunknown]
    rfl
  | _ => cases h

/-- Each reading of an operator on an array of scalars casts its operand to what the operator
admits, given that the operands inside are cast so. -/
theorem admits_of_condition (ht : t.IsBuiltin)
    (hitem : index.lookup p.element.schema = .scalar t)
    (ih : ∀ r x y, ReadsItems p r → sizeOf x ≤ sizeOf u → r.cast index x = .ok y →
      ItemsComparable t y)
    (h : (ofCondition index p key).cast index u = .ok v) :
    Admits (ItemsComparable t) (ofName key) v ∧ (ofName key = .container → Comparable t v) := by
  cases hop : ofName key with
  | comparison =>
    rw [ofCondition_known (by simp [hop]), hop] at h
    exact ⟨.compared (ih _ u v .comparand (Nat.le_refl _) h), by simp⟩
  | membership =>
    rw [ofCondition_known (by simp [hop]), hop] at h
    exact ⟨admits_of_members rfl (fun x y => ih _ x y .comparand) h, by simp⟩
  | logical =>
    rw [ofCondition_known (by simp [hop]), hop] at h
    refine ⟨?_, by simp⟩
    obtain ⟨ys, rfl, hys⟩ := items_of_logical h
    refine .listed rfl fun y hy => ?_
    obtain ⟨x, i, hx, hcast⟩ := hys y hy
    exact ih _ x y (.subfilter i) hx hcast
  | element selector =>
    rw [ofCondition_known (by simp [hop]), hop] at h
    simp only [cast_fixed] at h
    exact ⟨.fixed (selector.lawful_operandType.accepts_of_coerce h), by simp⟩
  | container =>
    rw [ofCondition_known (by simp [hop]), hop] at h
    simp only [cast_container_scalar hitem] at h
    exact ⟨.uncast rfl, fun _ => comparable_of_cast ht.lawful u v h⟩
  | _ => exact ⟨.uncast rfl, by simp⟩

/-- A successful cast at an array of scalars leaves nothing that could not be compared with the
array or with its items. -/
theorem itemsComparable_of_cast (ht : t.IsBuiltin) (hroot : p.isRoot = false)
    (harray : (index.lookup p.schema).isArray = true)
    (hitem : index.lookup p.element.schema = .scalar t) (r : Reading) (u v : Value)
    (hr : ReadsItems p r) (h : r.cast index u = .ok v) : ItemsComparable t v := by
  have hchild : ∀ i, index.lookup (p.child (.index i)).schema = .scalar t := fun _ => hitem
  -- Only conditions lead back to an operand on the same array, and that operand is smaller.
  rcases operand_cases u with hu | ⟨xs, hu⟩ | hforeign | ⟨fs, hu, hops⟩ | hsingle
  · rw [hu] at h
    cases hr with
    | location => rw [cast_location_null] at h; cases h; exact .single rfl rfl (.accepted rfl)
    | comparand => rw [cast_comparand_null] at h; cases h; exact .single rfl rfl (.accepted rfl)
    | subfilter i =>
      rw [cast_subfilter_single hroot harray rfl rfl] at h
      exact itemsComparable_of_item ht (hchild i) rfl h
  · rw [hu, hr.cast_items hroot harray] at h
    obtain ⟨ys, hys, rfl⟩ := Except.map_eq_ok_iff.1 h
    refine .whole fun y hy => ?_
    obtain ⟨x, -, i, hcast⟩ := mem_of_castItems hys hy
    exact comparable_of_item ht (hchild i) hcast
  · obtain ⟨hnot, hoperators⟩ := not_operators_of_foreign hforeign
    cases hr with
    | location =>
      rw [cast_location_foreign harray hforeign] at h
      cases h
      exact itemsComparable_of_foreign hforeign
    | comparand =>
      rw [cast_comparand_foreign harray hforeign] at h
      cases h
      exact itemsComparable_of_foreign hforeign
    | subfilter i =>
      rw [cast_subfilter_single hroot harray hnot hoperators] at h
      exact itemsComparable_of_item ht (hchild i) hoperators h
  · rw [hu, hr.cast_operators hroot harray hops] at h
    obtain ⟨gs, hgs, rfl⟩ := Except.map_eq_ok_iff.1 h
    have hadmits : ∀ f ∈ gs, Admits (ItemsComparable t) (ofName f.1) f.2 ∧
        (ofName f.1 = .container → Comparable t f.2) := by
      intro f hf
      obtain ⟨x, hx, hcast⟩ := mem_of_castFields hgs hf
      have hlt : sizeOf x < sizeOf u := hu ▸ sizeOf_lt_of_field hx
      exact admits_of_condition ht hitem
        (fun r' y z hr' hle hyz =>
          itemsComparable_of_cast ht hroot harray hitem r' y z hr' hyz) hcast
    refine .operators ?_ (fun f hf => (hadmits f hf).1) fun f hf => (hadmits f hf).2
    rw [isOperatorObject, any_of_castFields hgs isKnownOperator]
    exact hops
  · cases hr with
    | location =>
      rw [cast_location_single harray hsingle] at h
      obtain ⟨y, hy, rfl⟩ := Except.map_eq_ok_iff.1 h
      refine .whole fun z hz => ?_
      rw [List.mem_singleton.1 hz]
      exact comparable_of_item ht (hchild 0) hy
    | comparand =>
      rw [cast_comparand_single harray hsingle] at h
      exact itemsComparable_of_item ht hitem hsingle.not_operators h
    | subfilter i =>
      rw [cast_subfilter_single hroot harray hsingle.not_array hsingle.not_operators] at h
      exact itemsComparable_of_item ht (hchild i) hsingle.not_operators h
termination_by sizeOf u
decreasing_by omega

end Items

end TypedDocs
