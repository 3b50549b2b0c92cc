import TypedDocs.Proofs.Filter.Reading
import TypedDocs.Proofs.Schema.Bands

/-!
# Operators that pass through a filter cast

Operators that are ignored or unknown stay with their operands as they are written, at the
root, in lists of sub-filters and on fields. A field may be of any type: what is read on an
undeclared field, a scalar, an object or an array differs, and nothing is done in any case.
No index has to be compiled for this, and no rule is assumed to be built in.
-/

namespace TypedDocs

open Reading

/-- An operator whose operand no cast looks at. -/
def isInertOperator (key : String) : Bool :=
  isOperator key &&
    (FilterOperator.ofName key = .ignored || FilterOperator.ofName key = .unknown)

/-- A non-empty object of inert operators, none of which marks a value. -/
structure InertObject (fs : Fields) : Prop where
  nonempty : fs ≠ []
  inert : ∀ f ∈ fs, isInertOperator f.1 = true
  unmarked : ∀ f ∈ fs, f.1 ∉ valueWrappers

/-- Operands of fields in which there is nothing to cast. -/
inductive InertOperand : Value → Prop
  | null : InertOperand .null
  | operators {fs : Fields} : InertObject fs → InertOperand (.object fs)
  | negated {fs : Fields} : InertObject fs → InertOperand (.object [("$not", .object fs)])

/-- Filters of inert operators and inert operands, and of lists of such filters. -/
inductive PassesThrough : Value → Prop
  | empty : PassesThrough (.object [])
  | operator {key : String} {v : Value} {fs : Fields} : isInertOperator key = true →
      PassesThrough (.object fs) → PassesThrough (.object ((key, v) :: fs))
  | alternatives {key : String} {xs : List Value} {fs : Fields} :
      key ∈ ["$or", "$and", "$nor"] → (∀ x ∈ xs, PassesThrough x) →
      PassesThrough (.object fs) → PassesThrough (.object ((key, .array xs) :: fs))
  | field {key : String} {v : Value} {fs : Fields} : isOperator key = false → InertOperand v →
      PassesThrough (.object fs) → PassesThrough (.object ((key, v) :: fs))

theorem PassesThrough.isObject {v : Value} (h : PassesThrough v) : ∃ fs, v = .object fs := by
  cases h <;> exact ⟨_, rfl⟩

section Operators

variable {index : Index} {p : FieldPath} {t : ScalarType} {key : String} {v : Value} {fs : Fields}

theorem category_of_isInertOperator (h : isInertOperator key = true) :
    FilterOperator.ofName key = .ignored ∨ FilterOperator.ofName key = .unknown := by
  simp only [isInertOperator, Bool.and_eq_true, Bool.or_eq_true, decide_eq_true_eq] at h
  exact h.2

theorem isOperator_of_isInertOperator (h : isInertOperator key = true) :
    isOperator key = true := by
  simp only [isInertOperator, Bool.and_eq_true] at h
  exact h.1

theorem cast_condition_inert (h : isInertOperator key = true) :
    (ofCondition index p key).cast index v = .ok v := by
  have hop := isOperator_of_isInertOperator h
  rcases category_of_isInertOperator h with hname | hname
  · rw [ofCondition, if_pos hop, hname]
    exact cast_of_plan_keep rfl
  · rw [ofCondition, if_pos hop, hname]
    exact cast_of_plan_keep rfl

theorem cast_scalarOperand_inert (h : isInertOperator key = true) :
    (ofScalarOperand t key).cast index v = .ok v := by
  rcases category_of_isInertOperator h with hname | hname
  · rw [ofScalarOperand_eq, hname]
    exact cast_of_plan_keep rfl
  · rw [ofScalarOperand_eq, hname]
    exact cast_of_plan_keep rfl

/-- An inert object is one of unknown operators only, or has a known one that is ignored. -/
theorem InertObject.foreign_or_operators (h : InertObject fs) :
    isForeignObject (.object fs) = true ∨ isOperatorObject (.object fs) = true := by
  cases hops : isOperatorObject (.object fs) with
  | true => exact .inr rfl
  | false =>
    refine .inl ?_
    obtain ⟨first, rest, hfs⟩ := List.exists_cons_of_ne_nil h.nonempty
    have hfirst : first ∈ fs := hfs ▸ List.mem_cons_self
    simp only [isOperatorObject, List.any_eq_false] at hops
    simp only [isForeignObject, Bool.and_eq_true, Bool.not_eq_true', List.any_eq_true,
      List.any_eq_false]
    refine ⟨⟨first, hfirst, isOperator_of_isInertOperator (h.inert first hfirst)⟩, ?_⟩
    intro f hf
    simp [hops f hf, h.unmarked f hf]

end Operators

section Locations

variable {index : Index} {p : FieldPath} {v : Value} {fs : Fields}

/-- An object of operators is kept on every field if its operands are kept in both readings. -/
theorem cast_location_of_kept
    (hread : isForeignObject (.object fs) = true ∨ isOperatorObject (.object fs) = true)
    (hconditions : castFields index (ofCondition index p) fs = .ok fs)
    (hoperands : ∀ t, castFields index (ofScalarOperand t) fs = .ok fs) :
    (location p).cast index (.object fs) = .ok (.object fs) := by
  have hops : hasOperators (.object fs) = true := by
    rcases hread with hforeign | hknown
    · simp only [isForeignObject, Bool.and_eq_true] at hforeign
      exact hforeign.1
    · simp only [isOperatorObject, List.any_eq_true] at hknown
      obtain ⟨f, hf, hf'⟩ := hknown
      exact List.any_eq_true.2 ⟨f, hf, isOperator_of_known hf'⟩
  cases hl : index.lookup p.schema with
  | undeclared => exact cast_location_unknown (.inl hl)
  | untyped => exact cast_location_unknown (.inr hl)
  | array =>
    have harray : (index.lookup p.schema).isArray = true := by rw [hl]; rfl
    rcases hread with hforeign | hknown
    · exact cast_location_foreign harray hforeign
    · rw [cast_location_operators harray hknown, hconditions]
      rfl
  | object =>
    rw [cast_location_object hl, hconditions]
    rfl
  | scalar t =>
    rw [cast_location_scalar hl rfl]
    cases hsat : t.satisfies (.object fs) with
    | true => exact cast_scalar_satisfied hsat
    | false =>
      rw [cast_scalar_operators hsat hops, hoperands t]
      rfl

theorem InertObject.castFields_condition (h : InertObject fs) :
    castFields index (ofCondition index p) fs = .ok fs :=
  castFields_of_kept fun f hf => cast_condition_inert (h.inert f hf)

theorem InertObject.castFields_scalarOperand (h : InertObject fs) (t : ScalarType) :
    castFields index (ofScalarOperand t) fs = .ok fs :=
  castFields_of_kept fun f hf => cast_scalarOperand_inert (h.inert f hf)

theorem InertObject.cast_location (h : InertObject fs) :
    (location p).cast index (.object fs) = .ok (.object fs) :=
  cast_location_of_kept h.foreign_or_operators h.castFields_condition h.castFields_scalarOperand

theorem InertObject.cast_comparand (h : InertObject fs) :
    (comparand p).cast index (.object fs) = .ok (.object fs) := by
  cases harray : (index.lookup p.schema).isArray with
  | false =>
    rw [cast_congr (plan_comparand harray)]
    exact h.cast_location
  | true =>
    rcases h.foreign_or_operators with hforeign | hknown
    · exact cast_comparand_foreign harray hforeign
    · rw [cast_of_plan_fields (plan_comparand_operators harray hknown), h.castFields_condition]
      rfl

theorem InertObject.cast_scalar (h : InertObject fs) (t : ScalarType) :
    (scalar t).cast index (.object fs) = .ok (.object fs) := by
  cases hsat : t.satisfies (.object fs) with
  | true => exact cast_scalar_satisfied hsat
  | false =>
    obtain ⟨first, rest, hfs⟩ := List.exists_cons_of_ne_nil h.nonempty
    have hfirst : first ∈ fs := hfs ▸ List.mem_cons_self
    have hops : hasOperators (.object fs) = true :=
      List.any_eq_true.2 ⟨first, hfirst, isOperator_of_isInertOperator (h.inert first hfirst)⟩
    rw [cast_scalar_operators hsat hops, h.castFields_scalarOperand t]
    rfl

/-- Whatever the index says about a field, an inert operand is kept there. -/
theorem InertOperand.cast_location (h : InertOperand v) : (location p).cast index v = .ok v := by
  cases h with
  | null => exact cast_location_null
  | operators hfs => exact hfs.cast_location
  | negated hfs =>
    have hcondition : ofCondition index p "$not" = comparand p := rfl
    have hoperand (t : ScalarType) : ofScalarOperand t "$not" = scalar t := rfl
    refine cast_location_of_kept (.inr rfl) (castFields_of_kept fun f hf => ?_)
      fun t => castFields_of_kept fun f hf => ?_
    · rw [List.mem_singleton.1 hf, hcondition]
      exact hfs.cast_comparand
    · rw [List.mem_singleton.1 hf, hoperand]
      exact hfs.cast_scalar t

end Locations

/-- The conditions of a filter that passes through are kept, sub-filters included. -/
theorem PassesThrough.castFields {index : Index} {v : Value} (h : PassesThrough v) :
    ∀ fs, v = .object fs → Reading.castFields index (ofCondition index .root) fs = .ok fs := by
  have hcons : ∀ {key : String} {x : Value} {fs gs : Fields},
      (ofCondition index .root key).cast index x = .ok x →
      Reading.castFields index (ofCondition index .root) fs = .ok fs →
      Value.object ((key, x) :: fs) = .object gs →
      Reading.castFields index (ofCondition index .root) gs = .ok gs := by
    intro key x fs gs hx hfs heq
    cases heq
    rw [castFields_cons, hx, hfs]
    rfl
  induction h with
  | empty =>
    intro fs heq
    cases heq
    rfl
  | operator hkey _ ih => exact fun gs => hcons (cast_condition_inert hkey) (ih _ rfl)
  | @alternatives key xs fs hkey hxs _ ihxs ih =>
    refine fun gs => hcons ?_ (ih _ rfl)
    have hreading : ofCondition index .root key = logical .root := by
      simp only [List.mem_cons, List.not_mem_nil, or_false] at hkey
      rcases hkey with rfl | rfl | rfl <;> rfl
    rw [hreading, cast_logical_items, castItems_of_kept fun x hx i => ?_]
    · rfl
    · obtain ⟨gs, rfl⟩ := (hxs x hx).isObject
      rw [cast_subfilter_root rfl, ihxs _ hx gs rfl]
      rfl
  | field hkey hv _ ih =>
    refine fun gs => hcons ?_ (ih _ rfl)
    rw [ofCondition_field hkey]
    exact hv.cast_location

namespace Filter

/-- A filter of inert operators is cast to itself under every index. -/
theorem cast_passesThrough (index : Index) {v : Value} (h : PassesThrough v) :
    cast index v = .ok v := by
  obtain ⟨fs, rfl⟩ := h.isObject
  rw [cast, h.castFields fs rfl]
  rfl

/-- Inert operators at the root, on an array in a sub-filter, negated on a scalar, on an array of
arrays and next to a field compared with `null`. -/
theorem cast_passesThrough_bands :
    let filter : Value := .object [("$where", .string "this.born"),
      ("$or", .array [.object [("members", .object [("$geoWithin", .bool true)])]]),
      ("born", .object [("$not", .object [("$near", .array [.string "1962"])])]),
      ("points", .object [("$nope", .string "1"), ("$mod", .string "2")]), ("name", .null)]
    PassesThrough filter ∧ cast bands filter = .ok filter := by
  intro filter
  have hpasses : PassesThrough filter := by
    refine .operator (by decide) (.alternatives (by decide) ?_ (.field (by decide) ?_
      (.field (by decide) ?_ (.field (by decide) .null .empty))))
    · intro x hx
      rw [List.mem_singleton.1 hx]
      exact .field (by decide) (.operators ⟨by simp, by decide, by decide⟩) .empty
    · exact .negated ⟨by simp, by decide, by decide⟩
    · exact .operators ⟨by simp, by decide, by decide⟩
  exact ⟨hpasses, cast_passesThrough bands hpasses⟩

end Filter

end TypedDocs
