import TypedDocs.Proofs.Filter.Comparable
import TypedDocs.Proofs.Filter.Steady
import TypedDocs.Proofs.Schema.Compiled

/-!
# Casting the result of a cast

A second cast is followed through the readings in the way of the first: a value that is
only kept, a value taken apart into items or fields, an operand at rest, and a single
operand on its way down an array. In all of them the second cast succeeds; whether it
changes anything is decided before the first cast.
-/

namespace TypedDocs

open FilterOperator Reading

/-- The result of a cast can be cast, and the second cast keeps it exactly if `steady`. -/
def Recasts {α : Type} (cast : α → Except CastError α) (steady : Bool) (u : α) : Prop :=
  ∀ v, cast u = .ok v → ∃ w, cast v = .ok w ∧ (w = v ↔ steady = true)

abbrev RecastsValue (index : Index) (r : Reading) (u : Value) : Prop :=
  Recasts (r.cast index) (r.isSteady index u) u

abbrev RecastsItems (index : Index) (f : Nat → Reading) (i : Nat) (xs : List Value) : Prop :=
  Recasts (castItems index f i) (areItemsSteady index f i xs) xs

abbrev RecastsFields (index : Index) (f : String → Reading) (fs : Fields) : Prop :=
  Recasts (castFields index f) (areFieldsSteady index f fs) fs

section Casts

variable {α β : Type} {cast : α → Except CastError α} {cast' : β → Except CastError β}
  {steady : Bool} {u : α}

theorem Recasts.of_kept (hsteady : steady = true) (h : ∀ v, cast u = .ok v → cast v = .ok v) :
    Recasts cast steady u :=
  fun v hv => ⟨v, h v hv, by simp [hsteady]⟩

theorem Recasts.of_changed (hsteady : steady = false)
    (h : ∀ v, cast u = .ok v → ∃ w, cast v = .ok w ∧ w ≠ v) : Recasts cast steady u := by
  intro v hv
  obtain ⟨w, hw, hne⟩ := h v hv
  exact ⟨w, hw, by simp [hsteady, hne]⟩

/-- The second cast of something built around a part is that of the part. -/
theorem Recasts.map (h : Recasts cast steady u) {f : α → β} {u' : β}
    (hinjective : ∀ a b, f a = f b → a = b) (hu : cast' u' = (cast u).map f)
    (hv : ∀ v, cast u = .ok v → cast' (f v) = (cast v).map f) : Recasts cast' steady u' := by
  intro v' hv'
  rw [hu] at hv'
  obtain ⟨v, hcast, rfl⟩ := Except.map_eq_ok_iff.1 hv'
  obtain ⟨w, hw, hiff⟩ := h v hcast
  refine ⟨f w, by rw [hv v hcast, hw]; rfl, ?_⟩
  rw [← hiff]
  exact ⟨fun heq => hinjective _ _ heq, fun heq => by rw [heq]⟩

theorem Recasts.congr {cast' : α → Except CastError α} (h : Recasts cast steady u)
    (hu : cast' u = cast u) (hv : ∀ v, cast u = .ok v → cast' v = cast v) :
    Recasts cast' steady u := by
  intro v hcast
  rw [hu] at hcast
  rw [hv v hcast]
  exact h v hcast

end Casts

section Parts

variable {index : Index} {r : Reading} {i : Nat} {x : Value} {xs : List Value} {key : String}
  {fs : Fields}

theorem recastsItems_cons {f : Nat → Reading} (hx : RecastsValue index (f i) x)
    (hxs : RecastsItems index f (i + 1) xs) : RecastsItems index f i (x :: xs) := by
  intro vs hvs
  rw [castItems_cons] at hvs
  obtain ⟨y, hy, hvs⟩ := Except.bind_eq_ok_iff.1 hvs
  obtain ⟨ys, hys, rfl⟩ := Except.map_eq_ok_iff.1 hvs
  obtain ⟨z, hz, hhead⟩ := hx y hy
  obtain ⟨zs, hzs, htail⟩ := hxs ys hys
  refine ⟨z :: zs, ?_, ?_⟩
  · rw [castItems_cons, hz, hzs]
    rfl
  · rw [List.cons.injEq, hhead, htail, areItemsSteady, Bool.and_eq_true]

theorem recastsFields_cons {f : String → Reading} (hx : RecastsValue index (f key) x)
    (hfs : RecastsFields index f fs) : RecastsFields index f ((key, x) :: fs) := by
  intro vs hvs
  rw [castFields_cons] at hvs
  obtain ⟨y, hy, hvs⟩ := Except.bind_eq_ok_iff.1 hvs
  obtain ⟨gs, hgs, rfl⟩ := Except.map_eq_ok_iff.1 hvs
  obtain ⟨z, hz, hhead⟩ := hx y hy
  obtain ⟨hs, hhs, htail⟩ := hfs gs hgs
  refine ⟨(key, z) :: hs, ?_, ?_⟩
  · rw [castFields_cons, hz, hhs]
    rfl
  · rw [List.cons.injEq, Prod.mk.injEq, eq_self, true_and, hhead, htail, areFieldsSteady,
      Bool.and_eq_true]

/-- A reading that plans as another one does, before the cast and after it. -/
theorem recasts_of_plan {r' : Reading} (hplan : r.plan index x = r'.plan index x)
    (hambiguous : r.isAmbiguous index x = r'.isAmbiguous index x)
    (hagain : ∀ v, r'.cast index x = .ok v → r.plan index v = r'.plan index v)
    (h : RecastsValue index r' x) : RecastsValue index r x := by
  have hsteady : r.isSteady index x = r'.isSteady index x :=
    isSteady_congr (by rw [hplan]) hambiguous
  rw [RecastsValue, hsteady]
  exact h.congr (cast_congr hplan) fun v hv => cast_congr (hagain v hv)

theorem singleton_injective (a b : Value) (h : Value.array [a] = .array [b]) : a = b := by
  cases h
  rfl

/-- A reading in which a value stands for a list of one, which is cast as that one value. -/
theorem recasts_of_wrapped {r' : Reading} (hplan : r.plan index x = (r'.plan index x).wrapped 1)
    (hambiguous : r.isAmbiguous index x = r'.isAmbiguous index x)
    (hagain : ∀ v, r.cast index (.array [v]) = (r'.cast index v).map fun w => .array [w])
    (h : RecastsValue index r' x) : RecastsValue index r x := by
  have hsteady : r.isSteady index x = r'.isSteady index x :=
    isSteady_congr (by rw [hplan]; rfl) hambiguous
  rw [RecastsValue, hsteady]
  exact h.map singleton_injective (cast_wrapped hplan) fun v _ => hagain v

theorem cast_singleton_of_plan {f : Nat → Reading} {v : Value}
    (hplan : r.plan index (.array [v]) = ⟨0, .items f⟩) :
    r.cast index (.array [v]) = ((f 0).cast index v).map fun w => .array [w] := by
  rw [cast_of_plan_items hplan, castItems_cons]
  cases (f 0).cast index v <;> rfl

/-- A reading that takes any array apart in one way. -/
theorem recasts_of_items {f : Nat → Reading}
    (hplan : ∀ ys, r.plan index (.array ys) = ⟨0, .items f⟩)
    (h : RecastsItems index f 0 xs) : RecastsValue index r (.array xs) := by
  rw [RecastsValue, isSteady_of_plan_items (hplan xs)]
  exact h.map (fun _ _ heq => Value.array.inj heq) (cast_of_plan_items (hplan xs))
    fun ys _ => cast_of_plan_items (hplan ys)

/-- A reading that takes objects of the same names apart in one way. -/
theorem recasts_of_fields {f : String → Reading}
    (hplan : ∀ gs : Fields, (∀ q : String → Bool, (gs.any fun g => q g.1) = fs.any fun g => q g.1) →
      r.plan index (.object gs) = ⟨0, .fields f⟩)
    (hambiguous : r.isAmbiguous index (.object fs) = false)
    (h : RecastsFields index f fs) : RecastsValue index r (.object fs) := by
  have hfs := hplan fs fun _ => rfl
  rw [RecastsValue, isSteady_of_plan_fields hfs hambiguous]
  exact h.map (fun _ _ heq => Value.object.inj heq) (cast_of_plan_fields hfs)
    fun gs hgs => cast_of_plan_fields (hplan gs (any_of_castFields hgs))

theorem recasts_of_keep (hplan : r.plan index x = .keep)
    (hambiguous : r.isAmbiguous index x = false) : RecastsValue index r x := by
  refine .of_kept (isSteady_of_plan_keep hplan hambiguous) fun v hv => ?_
  rw [cast_of_plan_keep hplan] at hv
  cases hv
  exact cast_of_plan_keep hplan

end Parts

section Locations

variable {index : Index} {p : FieldPath} {t : ScalarType} {u v : Value}

theorem cast_location_of_scalar (h : index.lookup p.schema = .scalar t) :
    (location p).cast index v = (scalar t).cast index v := by
  cases hnull : v.isNull with
  | true =>
    obtain rfl := Value.eq_null hnull
    rw [cast_location_null, cast_scalar_literal rfl]
    rfl
  | false => exact cast_location_scalar h hnull

theorem isSteady_location_of_scalar (h : index.lookup p.schema = .scalar t) :
    (location p).isSteady index v = true := by
  cases hnull : v.isNull with
  | true =>
    obtain rfl := Value.eq_null hnull
    exact isSteady_of_plan_keep rfl location_not_ambiguous
  | false =>
    have hscalar : (scalar t).isSteady index v = true := IsPlaceless.isSteady v (.scalar t)
    rw [← hscalar]
    exact isSteady_congr (by rw [plan_location_scalar h hnull]) rfl

theorem recasts_scalar (ht : t.Lawful) : RecastsValue index (scalar t) u :=
  .of_kept (IsPlaceless.isSteady u (.scalar t)) fun v hv =>
    cast_of_comparable v (comparable_of_cast ht u v hv)

/-- The cast at a location that is not an array, by what the index says of the location. -/
theorem recasts_at_rest (hrules : index.HasBuiltinRules)
    (hrest : (index.lookup p.schema).isArray = false)
    (hfields : ∀ fs, u = .object fs → RecastsFields index (ofCondition index p) fs) :
    RecastsValue index (location p) u := by
  cases hl : index.lookup p.schema with
  | undeclared => exact recasts_of_keep (plan_location_unknown (.inl hl)) location_not_ambiguous
  | untyped => exact recasts_of_keep (plan_location_unknown (.inr hl)) location_not_ambiguous
  | array =>
    rw [hl] at hrest
    cases hrest
  | scalar t =>
    have ht := hrules.lawful hl
    refine .of_kept (isSteady_location_of_scalar hl) fun v hv => ?_
    rw [cast_location_of_scalar hl] at hv ⊢
    exact cast_of_comparable v (comparable_of_cast ht u v hv)
  | object =>
    cases u with
    | null => exact recasts_of_keep rfl location_not_ambiguous
    | object fs =>
      exact recasts_of_fields (fun gs _ => plan_location_object hl) location_not_ambiguous
        (hfields fs rfl)
    | _ =>
      intro v hv
      rw [cast_location_misshapen hl rfl rfl] at hv
      cases hv

/-- The cast at a location that is not an array keeps the value, keeps the names of its fields,
or converts it. -/
theorem cases_at_rest (hrules : index.HasBuiltinRules)
    (hrest : (index.lookup p.schema).isArray = false) (hnull : u.isNull = false)
    (h : (location p).cast index u = .ok v) :
    v = u ∨ (∃ fs gs, u = .object fs ∧ v = .object gs ∧
      ∀ q : String → Bool, (gs.any fun g => q g.1) = fs.any fun g => q g.1) ∨ IsSingle v := by
  cases hl : index.lookup p.schema with
  | undeclared => rw [cast_location_unknown (.inl hl)] at h; cases h; exact .inl rfl
  | untyped => rw [cast_location_unknown (.inr hl)] at h; cases h; exact .inl rfl
  | array =>
    rw [hl] at hrest
    cases hrest
  | object =>
    cases u with
    | null => cases hnull
    | object fs =>
      rw [cast_location_object hl] at h
      obtain ⟨gs, hgs, rfl⟩ := Except.map_eq_ok_iff.1 h
      exact .inr (.inl ⟨fs, gs, rfl, rfl, any_of_castFields hgs⟩)
    | _ => rw [cast_location_misshapen hl rfl rfl] at h; cases h
  | scalar t =>
    rw [cast_location_scalar hl hnull] at h
    cases hsat : t.satisfies u with
    | true => rw [cast_scalar_satisfied hsat] at h; cases h; exact .inl rfl
    | false =>
      cases hops : hasOperators u with
      | true =>
        obtain ⟨fs, rfl⟩ := object_of_hasOperators hops
        rw [cast_scalar_operators hsat hops] at h
        obtain ⟨gs, hgs, rfl⟩ := Except.map_eq_ok_iff.1 h
        exact .inr (.inl ⟨fs, gs, rfl, rfl, any_of_castFields hgs⟩)
      | false =>
        have hnot : t.accepts u = false := by simp [ScalarType.accepts, hsat, hnull]
        rw [cast_scalar_literal hops, ScalarType.coerce, if_neg (by simp [hnot])] at h
        have hconverted := (hrules hl).satisfies_of_convert h
        exact .inr (.inr (isSingle_of_satisfies (hrules hl) hconverted))

theorem isSingle_at_rest (hrules : index.HasBuiltinRules)
    (hrest : (index.lookup p.schema).isArray = false) (hsingle : IsSingle u)
    (h : (location p).cast index u = .ok v) : IsSingle v := by
  rcases cases_at_rest hrules hrest hsingle.not_null h with rfl | ⟨fs, gs, rfl, rfl, hnames⟩ | hv
  · exact hsingle
  · have hforeign : isForeignObject (.object gs) = isForeignObject (.object fs) := by
      have hknown := hnames fun key => isKnownOperator key || valueWrappers.contains key
      simp only [isForeignObject, hnames isOperator, hknown]
    exact ⟨rfl, rfl, hforeign.trans hsingle.not_foreign,
      (hnames isKnownOperator).trans hsingle.not_operators⟩
  · exact hv

/-- What is read neither as a list nor as conditions is not read so after the cast. -/
theorem literal_at_rest (hrules : index.HasBuiltinRules)
    (hrest : (index.lookup p.schema).isArray = false) (harray : u.isArray = false)
    (hops : isOperatorObject u = false) (h : (location p).cast index u = .ok v) :
    v.isArray = false ∧ isOperatorObject v = false := by
  cases hnull : u.isNull with
  | true =>
    obtain rfl := Value.eq_null hnull
    rw [cast_location_null] at h
    cases h
    exact ⟨rfl, rfl⟩
  | false =>
    rcases cases_at_rest hrules hrest hnull h with rfl | ⟨fs, gs, rfl, rfl, hnames⟩ | hv
    · exact ⟨harray, hops⟩
    · exact ⟨rfl, (hnames isKnownOperator).trans hops⟩
    · exact ⟨hv.not_array, hv.not_operators⟩

theorem cast_location_singleton (harray : (index.lookup p.schema).isArray = true) :
    (location p).cast index (.array [v]) =
      ((location (p.child (.index 0))).cast index v).map fun w => .array [w] :=
  cast_singleton_of_plan (plan_location_items harray)

end Locations

section Operands

variable {index : Index} {p : FieldPath} {r : Reading} {u : Value}

/-- A value that is cast alike before and after it is made the item of an array. -/
theorem recasts_single (hsingle : IsSingle u)
    (hrest : ∀ q : FieldPath, (index.lookup q.schema).isArray = false →
      RecastsValue index (location q) u) : RecastsValue index (location p) u := by
  induction p using Index.operandLanding.induct index with
  | case1 p harray n m hlanding ih =>
    exact recasts_of_wrapped (plan_location_single harray hsingle) rfl
      (fun v => cast_location_singleton harray) ih
  | case2 p hrest' => exact hrest p (by simpa using hrest')

/-- At an array, the cast of an item of an item is made a list once more. -/
theorem changed_of_item_of_item (hsingle : IsSingle u)
    (hrest : ∀ q : FieldPath, (index.lookup q.schema).isArray = false →
      RecastsValue index (location q) u)
    (hstays : ∀ (q : FieldPath) v, (index.lookup q.schema).isArray = false →
      (location q).cast index u = .ok v → IsSingle v)
    (harray : (index.lookup p.schema).isArray = true) {v : Value}
    (hv : (location (p.child (.index 0))).cast index u = .ok v) :
    ∃ w, (location p).cast index v = .ok w ∧ w ≠ v := by
  -- Down the array levels: at the last one the item is no list, and the second cast makes it one.
  induction p using Index.operandLanding.induct index generalizing v with
  | case2 p hrest' => exact absurd harray hrest'
  | case1 p _ n m hlanding ih =>
    cases hchild : (index.lookup (p.child (.index 0)).schema).isArray with
    | false =>
      have hsingle' := hstays _ _ hchild hv
      obtain ⟨w, hw, -⟩ := hrest _ hchild v hv
      refine ⟨.array [w], ?_, ?_⟩
      · rw [cast_location_single harray hsingle', hw]
        rfl
      · rintro rfl
        cases hsingle'.not_array
    | true =>
      rw [cast_location_single hchild hsingle] at hv
      obtain ⟨x, hx, rfl⟩ := Except.map_eq_ok_iff.1 hv
      obtain ⟨w, hw, hne⟩ := ih hchild hx
      refine ⟨.array [w], ?_, fun heq => hne (singleton_injective _ _ heq)⟩
      rw [cast_location_singleton harray, hw]
      rfl

end Operands

end TypedDocs
