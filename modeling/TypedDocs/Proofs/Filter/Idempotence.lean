import TypedDocs.Proofs.Filter.Literals
import TypedDocs.Proofs.Filter.Recast
import TypedDocs.Proofs.Filter.SchemaKey

/-!
# A second filter cast

What a filter cast returns can always be cast again. The second cast returns the same
filter exactly if the first one met no ambiguous value. In a steady filter every value is
read the second time as the first, and what was converted is of its type already; an
ambiguous value is a list the second time, and its item is made a list once more.
-/

namespace TypedDocs

open FilterOperator Reading

/-- The types that are named in a reading are lawful. -/
def Reading.IsLawful : Reading → Prop
  | .fixed t | .scalar t => t.Lawful
  | .members item => item.IsLawful
  | _ => True

theorem ofCondition_isLawful {index : Index} {p : FieldPath} (key : String) :
    (ofCondition index p key).IsLawful := by
  unfold ofCondition
  split
  · split
    · trivial
    · trivial
    · trivial
    · exact ElementSelector.lawful_operandType _
    all_goals trivial
  · trivial

/-- What is known of the parts of a value when its own cast is considered. -/
structure PartsRecast (index : Index) (u : Value) : Prop where
  items : ∀ xs, u = .array xs → ∀ f : Nat → Reading, (∀ i, (f i).IsLawful) →
    RecastsItems index f 0 xs
  fields : ∀ fs, u = .object fs → ∀ f : String → Reading, (∀ key, (f key).IsLawful) →
    RecastsFields index f fs

section Readings

variable {index : Index} {p : FieldPath} {r : Reading} {u : Value}

theorem below_of_array (hroot : index.lookup "" = .undeclared)
    (harray : (index.lookup p.schema).isArray = true) : p.schema ≠ "" := by
  intro hempty
  rw [hempty, hroot] at harray
  cases harray

theorem not_root_of_array (hroot : index.lookup "" = .undeclared)
    (harray : (index.lookup p.schema).isArray = true) : p.isRoot = false := by
  simp [FieldPath.isRoot, below_of_array hroot harray]

variable (hrules : index.HasBuiltinRules) (hroot : index.lookup "" = .undeclared)
  (hparts : PartsRecast index u)

include hparts in
theorem ReadsItems.recasts_items (hr : ReadsItems p r) (hnot : p.isRoot = false)
    (harray : (index.lookup p.schema).isArray = true) {xs : List Value} (hu : u = .array xs) :
    RecastsValue index r u := by
  have hxs := hparts.items xs hu (fun i => .location (p.child (.index i))) fun _ => trivial
  subst hu
  exact recasts_of_items (fun ys => hr.plan_items hnot harray) hxs

include hparts in
theorem ReadsItems.recasts_operators (hr : ReadsItems p r) (hnot : p.isRoot = false)
    (harray : (index.lookup p.schema).isArray = true) {fs : Fields} (hu : u = .object fs)
    (hops : isOperatorObject (.object fs) = true) : RecastsValue index r u := by
  have hfs := hparts.fields fs hu (ofCondition index p) ofCondition_isLawful
  subst hu
  refine recasts_of_fields (fun gs hnames => ?_) ?_ hfs
  · exact hr.plan_operators hnot harray ((hnames isKnownOperator).trans hops)
  · exact not_ambiguous_of_not_single (not_single_of_operators hops)

include hrules hparts

theorem recasts_of_parts_at_rest (hrest : (index.lookup p.schema).isArray = false) :
    RecastsValue index (location p) u :=
  recasts_at_rest hrules hrest fun fs hu => hparts.fields fs hu _ ofCondition_isLawful

include hroot

theorem recasts_location : RecastsValue index (location p) u := by
  cases harray : (index.lookup p.schema).isArray with
  | false => exact recasts_of_parts_at_rest hrules hparts harray
  | true =>
    have hnot := not_root_of_array hroot harray
    rcases operand_cases u with hu | ⟨xs, hu⟩ | hforeign | ⟨fs, hu, hops⟩ | hsingle
    · exact recasts_of_keep (by rw [hu]; rfl) location_not_ambiguous
    · exact ReadsItems.location.recasts_items hparts hnot harray hu
    · exact recasts_of_keep (plan_location_foreign harray hforeign) location_not_ambiguous
    · exact ReadsItems.location.recasts_operators hparts hnot harray hu hops
    · exact recasts_single hsingle fun q hq => recasts_of_parts_at_rest hrules hparts hq

/-- An ambiguous value becomes the item of the array, and the item is made a list again. -/
theorem recasts_of_ambiguous (hr : ReadsItems p r) (hambiguous : r.isAmbiguous index u = true)
    (hsingle : IsSingle u) (harray : (index.lookup p.schema).isArray = true)
    (hchild : (index.lookup (p.child (.index 0)).schema).isArray = true) {q : FieldPath}
    (hcast : r.cast index u = (location q).cast index u)
    (hq : q.schema = (p.child (.index 0)).schema) : RecastsValue index r u := by
  have hnear : q.Near (p.child (.index 0)) := ⟨hq, hq ▸ below_of_array hroot hchild⟩
  refine .of_changed (isSteady_of_ambiguous hambiguous) fun v hv => ?_
  -- The first cast may name the item by another index than the second, which does not matter.
  rw [hcast, Near.cast u (.location hnear), cast_location_single hchild hsingle] at hv
  obtain ⟨x, hx, rfl⟩ := Except.map_eq_ok_iff.1 hv
  obtain ⟨w, hw, hne⟩ := changed_of_item_of_item hsingle
    (fun q hrest => recasts_of_parts_at_rest hrules hparts hrest)
    (fun q v hrest hv => isSingle_at_rest hrules hrest hsingle hv) hchild hx
  refine ⟨.array [w], ?_, fun heq => hne (singleton_injective _ _ heq)⟩
  rw [hr.cast_items (not_root_of_array hroot harray) harray, ← cast_location_items harray,
    cast_location_singleton harray, hw]
  rfl

theorem recasts_comparand : RecastsValue index (comparand p) u := by
  cases harray : (index.lookup p.schema).isArray with
  | false =>
    have hambiguous : (comparand p).isAmbiguous index u = false :=
      not_ambiguous_of_not_nested (not_nested_of_not_array harray)
    exact recasts_of_plan (plan_comparand harray)
      (hambiguous.trans location_not_ambiguous.symm) (fun v _ => plan_comparand harray)
      (recasts_location hrules hroot hparts)
  | true =>
    have hnot := not_root_of_array hroot harray
    rcases operand_cases u with hu | ⟨xs, hu⟩ | hforeign | ⟨fs, hu, hops⟩ | hsingle
    · subst hu
      exact recasts_of_keep plan_comparand_null (not_ambiguous_of_not_single (by decide))
    · exact ReadsItems.comparand.recasts_items hparts hnot harray hu
    · exact recasts_of_keep (plan_comparand_foreign harray hforeign)
        (not_ambiguous_of_not_single (not_single_of_foreign hforeign))
    · exact ReadsItems.comparand.recasts_operators hparts hnot harray hu hops
    · cases helement : (index.lookup p.element.schema).isArray with
      | false =>
        have hambiguous : (comparand p).isAmbiguous index u = false :=
          not_ambiguous_of_not_nested (not_nested_of_items helement)
        refine recasts_of_plan (plan_comparand_single harray hsingle)
          (hambiguous.trans location_not_ambiguous.symm) (fun v hv => ?_)
          (recasts_of_parts_at_rest hrules hparts helement)
        exact plan_comparand_single harray (isSingle_at_rest hrules helement hsingle hv)
      | true =>
        have hambiguous : (comparand p).isAmbiguous index u = true := by
          simp [isAmbiguous, hsingle, comparedWith, Index.isNested, harray, helement]
        exact recasts_of_ambiguous hrules hroot hparts .comparand hambiguous hsingle harray
          helement (cast_comparand_single harray hsingle) rfl

theorem recasts_subfilter_literal {i : Nat} (harray : (index.lookup p.schema).isArray = true)
    (hchild : (index.lookup (p.child (.index i)).schema).isArray = false)
    (hlist : u.isArray = false) (hops : isOperatorObject u = false) :
    RecastsValue index (subfilter p i) u := by
  have hnot := not_root_of_array hroot harray
  have helement : (index.lookup p.element.schema).isArray = false := hchild
  have hambiguous : (subfilter p i).isAmbiguous index u = false :=
    not_ambiguous_of_not_nested (not_nested_of_items helement)
  refine recasts_of_plan (plan_subfilter_single hnot harray hlist hops)
    (hambiguous.trans location_not_ambiguous.symm) (fun v hv => ?_)
    (recasts_of_parts_at_rest hrules hparts hchild)
  obtain ⟨hlist', hops'⟩ := literal_at_rest hrules hchild hlist hops hv
  exact plan_subfilter_single hnot harray hlist' hops'

theorem recasts_subfilter_of_array {i : Nat} (harray : (index.lookup p.schema).isArray = true) :
    RecastsValue index (subfilter p i) u := by
  have hnot := not_root_of_array hroot harray
  rcases operand_cases u with hu | ⟨xs, hu⟩ | hforeign | ⟨fs, hu, hops⟩ | hsingle
  · subst hu
    have hplan : (subfilter p i).plan index .null = .keep :=
      (plan_subfilter_single hnot harray rfl rfl).trans rfl
    exact recasts_of_keep hplan (not_ambiguous_of_not_single (by decide))
  · exact (ReadsItems.subfilter i).recasts_items hparts hnot harray hu
  · obtain ⟨hlist, hops⟩ := not_operators_of_foreign hforeign
    cases hchild : (index.lookup (p.child (.index i)).schema).isArray with
    | false => exact recasts_subfilter_literal hrules hroot hparts harray hchild hlist hops
    | true =>
      have hplan : (subfilter p i).plan index u = .keep :=
        (plan_subfilter_single hnot harray hlist hops).trans (plan_location_foreign hchild hforeign)
      exact recasts_of_keep hplan (not_ambiguous_of_not_single (not_single_of_foreign hforeign))
  · exact (ReadsItems.subfilter i).recasts_operators hparts hnot harray hu hops
  · cases hchild : (index.lookup (p.child (.index i)).schema).isArray with
    | false =>
      exact recasts_subfilter_literal hrules hroot hparts harray hchild hsingle.not_array
        hsingle.not_operators
    | true =>
      have helement : (index.lookup p.element.schema).isArray = true := hchild
      have hambiguous : (subfilter p i).isAmbiguous index u = true := by
        simp [isAmbiguous, hsingle, comparedWith, Index.isNested, harray, helement]
      exact recasts_of_ambiguous hrules hroot hparts (.subfilter i) hambiguous hsingle harray
        hchild (cast_subfilter_single hnot harray hsingle.not_array hsingle.not_operators) rfl

theorem recasts_subfilter {i : Nat} : RecastsValue index (subfilter p i) u := by
  cases harray : (index.lookup p.schema).isArray with
  | true => exact recasts_subfilter_of_array hrules hroot hparts harray
  | false =>
    have hambiguous : (subfilter p i).isAmbiguous index u = false :=
      not_ambiguous_of_not_nested (not_nested_of_not_array harray)
    cases hnot : p.isRoot with
    | false =>
      exact recasts_of_plan (plan_subfilter_location hnot harray)
        (hambiguous.trans location_not_ambiguous.symm)
        (fun v _ => plan_subfilter_location hnot harray) (recasts_location hrules hroot hparts)
    | true =>
      cases hobject : u.isObject with
      | false =>
        intro v hv
        rw [cast_subfilter_root_misshapen hnot hobject] at hv
        cases hv
      | true =>
        cases u with
        | object fs =>
          exact recasts_of_fields (fun gs _ => plan_subfilter_root hnot) hambiguous
            (hparts.fields fs rfl _ ofCondition_isLawful)
        | _ => cases hobject

omit hroot in
theorem recasts_container : RecastsValue index (container p) u := by
  have hambiguous : (container p).isAmbiguous index u = false := not_ambiguous_of_not_nested rfl
  have hconditions (h : index.lookup p.element.schema = .array ∨
      index.lookup p.element.schema = .object) : RecastsValue index (container p) u := by
    cases hobject : u.isObject with
    | false =>
      intro v hv
      rw [cast_container_misshapen h hobject] at hv
      cases hv
    | true =>
      cases u with
      | object fs =>
        exact recasts_of_fields (fun gs _ => plan_container_conditions h) hambiguous
          (hparts.fields fs rfl _ ofCondition_isLawful)
      | _ => cases hobject
  cases hl : index.lookup p.element.schema with
  | array => exact hconditions (.inl hl)
  | object => exact hconditions (.inr hl)
  | undeclared => exact recasts_of_keep (by simp [plan, Plan.container, hl, Plan.keep]) hambiguous
  | untyped => exact recasts_of_keep (by simp [plan, Plan.container, hl, Plan.keep]) hambiguous
  | scalar t =>
    have ht := hrules.lawful hl
    exact recasts_of_plan (plan_container_scalar hl) rfl (fun v _ => plan_container_scalar hl)
      (recasts_scalar ht)

omit hrules hroot in
theorem recasts_members {item : Reading} (hlawful : item.IsLawful)
    (h : RecastsValue index item u) : RecastsValue index (members item) u := by
  cases hnull : u.isNull with
  | true =>
    obtain rfl := Value.eq_null hnull
    exact recasts_of_keep rfl (not_ambiguous_of_not_single (by decide))
  | false =>
    cases harray : u.isArray with
    | true =>
      cases u with
      | array xs =>
        exact recasts_of_items (fun _ => rfl) (hparts.items xs rfl _ fun _ => hlawful)
      | _ => cases harray
    | false =>
      exact recasts_of_wrapped (plan_members_single hnull harray) rfl
        (fun v => cast_singleton_of_plan (f := fun _ => item) rfl) h

theorem recasts_logical : RecastsValue index (logical p) u := by
  cases harray : u.isArray with
  | true =>
    cases u with
    | array xs => exact recasts_of_items (fun _ => rfl) (hparts.items xs rfl _ fun _ => trivial)
    | _ => cases harray
  | false =>
    exact recasts_of_wrapped (plan_logical_single harray) rfl
      (fun v => cast_singleton_of_plan rfl) (recasts_subfilter hrules hroot hparts)

theorem recasts_of_parts (hlawful : r.IsLawful) : RecastsValue index r u := by
  -- By induction on the reading: a lone member is the same value in the reading of the items.
  induction r with
  | keep => exact recasts_of_keep rfl (not_ambiguous_of_not_nested rfl)
  | foreign name p => exact recasts_of_keep rfl (not_ambiguous_of_not_nested rfl)
  | fixed t =>
    refine .of_kept (IsPlaceless.isSteady u (.fixed t)) fun v hv => ?_
    rw [cast_fixed] at hv ⊢
    exact ScalarType.Lawful.coerce_coerce hlawful hv
  | scalar t => exact recasts_scalar hlawful
  | location p => exact recasts_location hrules hroot hparts
  | comparand p => exact recasts_comparand hrules hroot hparts
  | members item ih => exact recasts_members hparts hlawful (ih hlawful)
  | logical p => exact recasts_logical hrules hroot hparts
  | subfilter p i => exact recasts_subfilter hrules hroot hparts
  | container p => exact recasts_container hrules hparts

end Readings

section Values

mutual
/-- Each reading of a value is cast again as its parts are. -/
theorem recasts {index : Index} (hrules : index.HasBuiltinRules)
    (hroot : index.lookup "" = .undeclared) :
    ∀ (u : Value) (r : Reading), r.IsLawful → RecastsValue index r u
  | .array xs, _, hlawful => by
    have hparts : PartsRecast index (.array xs) :=
      ⟨fun ys hys f hf => by cases hys; exact recasts_items hrules hroot xs 0 f hf, nofun⟩
    exact recasts_of_parts hrules hroot hparts hlawful
  | .object fs, _, hlawful => by
    have hparts : PartsRecast index (.object fs) :=
      ⟨nofun, fun gs hgs f hf => by cases hgs; exact recasts_fields hrules hroot fs f hf⟩
    exact recasts_of_parts hrules hroot hparts hlawful
  | .null, _, hlawful => recasts_of_parts hrules hroot ⟨nofun, nofun⟩ hlawful
  | .bool _, _, hlawful => recasts_of_parts hrules hroot ⟨nofun, nofun⟩ hlawful
  | .number _, _, hlawful => recasts_of_parts hrules hroot ⟨nofun, nofun⟩ hlawful
  | .string _, _, hlawful => recasts_of_parts hrules hroot ⟨nofun, nofun⟩ hlawful
theorem recasts_items {index : Index} (hrules : index.HasBuiltinRules)
    (hroot : index.lookup "" = .undeclared) :
    ∀ (xs : List Value) (i : Nat) (f : Nat → Reading), (∀ i, (f i).IsLawful) →
      RecastsItems index f i xs
  | [], _, _, _ => .of_kept rfl fun _ hv => by cases hv; rfl
  | x :: xs, i, f, hf =>
    recastsItems_cons (recasts hrules hroot x (f i) (hf i))
      (recasts_items hrules hroot xs (i + 1) f hf)
theorem recasts_fields {index : Index} (hrules : index.HasBuiltinRules)
    (hroot : index.lookup "" = .undeclared) :
    ∀ (fs : List (String × Value)) (f : String → Reading), (∀ key, (f key).IsLawful) →
      RecastsFields index f fs
  | [], _, _ => .of_kept rfl fun _ hv => by cases hv; rfl
  | (key, x) :: fs, f, hf =>
    recastsFields_cons (recasts hrules hroot x (f key) (hf key))
      (recasts_fields hrules hroot fs f hf)
end

end Values

namespace Filter

/-- The result of a filter cast can be cast again, and the second cast returns it exactly if no
value in the filter was ambiguous. -/
theorem recast_iff_steady {registry : Registry} {options : CompileOptions} {definition : Value}
    {index : Index} (hcompile : Definition.compile registry options definition = .ok index)
    (hregistry : registry.HasBuiltinRules) {filter result : Value}
    (h : cast index filter = .ok result) :
    ∃ again, cast index result = .ok again ∧
      (again = result ↔ isSteady index filter = true) := by
  have hrules := Definition.hasBuiltinRules_of_compile hregistry hcompile
  have hroot := Definition.lookup_empty_of_compile hcompile
  cases filter with
  | object fs =>
    obtain ⟨gs, hgs, rfl⟩ := Except.map_eq_ok_iff.1 h
    obtain ⟨hs, hhs, hiff⟩ := recasts_fields hrules hroot fs _ ofCondition_isLawful gs hgs
    refine ⟨.object hs, by rw [cast, hhs]; rfl, ?_⟩
    rw [Value.object.injEq, isSteady, hiff]
  | _ => cases h

/-- A list that the points are compared with means all points, so its items are lists. -/
theorem recast_iff_steady_bands :
    let one : Value := .number (.integer 1 (by decide))
    let points (v : Value) : Value := .object [("points", .object [("$in", v)])]
    let filter : Value := points (.array [.array [.string "1"], .null])
    let result : Value := points (.array [.array [.array [one]], .null])
    cast bands filter = .ok result ∧ isSteady bands filter = true ∧
      cast bands result = .ok result := by
  intro one points filter result
  have hcast : cast bands filter = .ok result := Except.eq_ok_of_toOption (by decide +kernel)
  have hsteady : isSteady bands filter = true := by decide +kernel
  obtain ⟨again, hagain, hiff⟩ :=
    recast_iff_steady compile_bands Registry.builtin_hasBuiltinRules hcast
  rw [hiff.2 hsteady] at hagain
  exact ⟨hcast, hsteady, hagain⟩

/-- One number is made a list of points, and that list is made the only item of an array. -/
theorem points_recast_differs :
    let one : Value := .number (.integer 1 (by decide))
    let points (v : Value) : Value := .object [("points", .object [("$eq", v)])]
    Definition.compile Registry.builtin {} Definition.bands = .ok bands ∧
      cast bands (points one) = .ok (points (.array [one])) ∧
      cast bands (points (.array [one])) = .ok (points (.array [.array [one]])) ∧
      points (.array [.array [one]]) ≠ points (.array [one]) := by
  refine ⟨compile_bands, Except.eq_ok_of_toOption ?_, Except.eq_ok_of_toOption ?_, by simp⟩
  · decide +kernel
  · decide +kernel

end Filter

end TypedDocs
