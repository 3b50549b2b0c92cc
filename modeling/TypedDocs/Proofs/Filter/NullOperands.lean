import TypedDocs.Proofs.Filter.Reading
import TypedDocs.Proofs.Schema.Bands
import TypedDocs.Proofs.Schema.FieldNames
import TypedDocs.Proofs.Schema.Open

/-!
# Operators compared with null

On an undeclared or untyped field and on a scalar, an operand `null` is kept under every
known operator. Where an object of operators is read as conditions on an object or an
array, two kinds of operators do not keep it: a list of sub-filters becomes the list of
one `null`, and conditions on items that are containers themselves are rejected. Nothing
is assumed of the rules of scalars.
-/

namespace TypedDocs

open Reading

mutual
/-- An object of known operators with `null` as their operands, or such an object under `$not`. -/
def comparesWithNull : Value → Bool
  | .object fs => !fs.isEmpty && haveNullOperands fs
  | _ => false
def haveNullOperands : List (String × Value) → Bool
  | [] => true
  | (key, v) :: fs =>
    isKnownOperator key && (v.isNull || (key = "$not" && comparesWithNull v)) &&
      haveNullOperands fs
end

mutual
/-- Whether an operator of some kind is used in an object of operators, or under `$not` in it. -/
def usesOperator (kind : FilterOperator) : Value → Bool
  | .object fs => useOperator kind fs
  | _ => false
def useOperator (kind : FilterOperator) : List (String × Value) → Bool
  | [] => false
  | (key, v) :: fs =>
    FilterOperator.ofName key = kind || usesOperator kind v || useOperator kind fs
end

mutual
/-- Each operand of an operator on sub-filters becomes the only item of a list. -/
def listedAlternatives : Value → Value
  | .object fs => .object (listAlternatives fs)
  | v => v
def listAlternatives : List (String × Value) → List (String × Value)
  | [] => []
  | (key, v) :: fs =>
    (key, if FilterOperator.ofName key = .logical then .array [v] else listedAlternatives v) ::
      listAlternatives fs
end

section Operands

variable {key : String} {v : Value} {fs : Fields}

theorem haveNullOperands_cons (h : haveNullOperands ((key, v) :: fs) = true) :
    isKnownOperator key = true ∧ (v = .null ∨ (key = "$not" ∧ comparesWithNull v = true)) ∧
      haveNullOperands fs = true := by
  simp only [haveNullOperands, Bool.and_eq_true, Bool.or_eq_true, decide_eq_true_eq] at h
  obtain ⟨⟨hkey, hv⟩, hfs⟩ := h
  exact ⟨hkey, hv.imp_left Value.eq_null, hfs⟩

theorem operands_of_comparesWithNull (h : comparesWithNull (.object fs) = true) :
    fs ≠ [] ∧ haveNullOperands fs = true := by
  simpa [comparesWithNull] using h

theorem isOperatorObject_of_comparesWithNull (h : comparesWithNull (.object fs) = true) :
    isOperatorObject (.object fs) = true := by
  obtain ⟨hne, hfs⟩ := operands_of_comparesWithNull h
  obtain ⟨⟨key, v⟩, rest, rfl⟩ := List.exists_cons_of_ne_nil hne
  simp [isOperatorObject, (haveNullOperands_cons hfs).1]

theorem hasOperators_of_isOperatorObject (h : isOperatorObject v = true) :
    hasOperators v = true := by
  cases v with
  | object fs =>
    simp only [isOperatorObject, List.any_eq_true] at h
    obtain ⟨f, hf, hknown⟩ := h
    exact List.any_eq_true.2 ⟨f, hf, isOperator_of_known hknown⟩
  | _ => cases h

mutual
theorem listedAlternatives_eq_self_iff : ∀ v : Value, comparesWithNull v = true →
    (listedAlternatives v = v ↔ usesOperator .logical v = false)
  | .object fs, h => by
    simp only [listedAlternatives, usesOperator, Value.object.injEq]
    exact listAlternatives_eq_self_iff fs (operands_of_comparesWithNull h).2
  | .null, h => by cases h
  | .bool _, h => by cases h
  | .number _, h => by cases h
  | .string _, h => by cases h
  | .array _, h => by cases h
theorem listAlternatives_eq_self_iff : ∀ fs : List (String × Value),
    haveNullOperands fs = true → (listAlternatives fs = fs ↔ useOperator .logical fs = false)
  | [], _ => by simp [listAlternatives, useOperator]
  | (key, v) :: fs, h => by
    obtain ⟨-, hv, hfs⟩ := haveNullOperands_cons h
    have hrest := listAlternatives_eq_self_iff fs hfs
    have hnested := listedAlternatives_eq_self_iff v
    simp only [listAlternatives, useOperator, List.cons.injEq, Prod.mk.injEq, true_and,
      Bool.or_eq_false_iff, decide_eq_false_iff_not, hrest]
    rcases hv with rfl | ⟨rfl, hv⟩
    · by_cases hlogical : FilterOperator.ofName key = .logical
      · simp [hlogical]
      · simp [hlogical, listedAlternatives, usesOperator]
    · have hlogical : FilterOperator.ofName "$not" ≠ .logical := by decide
      simp [hlogical, hnested hv]
end

end Operands

section Scalars

variable {index : Index} {t : ScalarType}

theorem cast_scalarOperand_null {key : String} :
    (ofScalarOperand t key).cast index .null = .ok .null := by
  rw [ofScalarOperand_eq]
  cases FilterOperator.ofName key with
  | comparison => exact cast_scalar_literal rfl
  | membership => exact cast_members_null
  | logical => exact cast_members_null
  | element selector => exact cast_fixed
  | container => exact cast_of_plan_keep rfl
  | ignored => exact cast_of_plan_keep rfl
  | unknown => exact cast_of_plan_keep rfl

mutual
/-- Compared with a scalar, operators on `null` are kept. -/
theorem cast_scalar_comparesWithNull : ∀ v : Value, comparesWithNull v = true →
    (scalar t).cast index v = .ok v
  | .object fs, h => by
    have hfs := castFields_scalarOperand_null fs (operands_of_comparesWithNull h).2
    by_cases hsat : t.satisfies (.object fs) = true
    · exact cast_scalar_satisfied hsat
    · have hops := hasOperators_of_isOperatorObject (isOperatorObject_of_comparesWithNull h)
      rw [cast_scalar_operators (by simpa using hsat) hops, hfs]
      rfl
  | .null, h => by cases h
  | .bool _, h => by cases h
  | .number _, h => by cases h
  | .string _, h => by cases h
  | .array _, h => by cases h
theorem castFields_scalarOperand_null : ∀ fs : List (String × Value),
    haveNullOperands fs = true → castFields index (ofScalarOperand t) fs = .ok fs
  | [], _ => rfl
  | (key, v) :: fs, h => by
    obtain ⟨-, hv, hfs⟩ := haveNullOperands_cons h
    have hnested := cast_scalar_comparesWithNull v
    have hhead : (ofScalarOperand t key).cast index v = .ok v := by
      rcases hv with rfl | ⟨rfl, hv⟩
      · exact cast_scalarOperand_null
      · exact hnested hv
    rw [castFields_cons, hhead, castFields_scalarOperand_null fs hfs]
    rfl
end

end Scalars

/-- Whether the items at a location are asked to meet conditions that only an object can be. -/
def Index.itemsTakeConditions (index : Index) (p : FieldPath) : Bool :=
  (index.lookup p.element.schema).isContainer

/-- What conditions on `null` are rejected with. -/
def nullMismatch : CastError := .ofShape .null objectName

/-- What a cast at an object or an array makes of operators on `null`. -/
def nullAnswer (index : Index) (p : FieldPath) (v : Value) : Except CastError Value :=
  if index.itemsTakeConditions p = true ∧ usesOperator .container v = true then
    .error nullMismatch
  else .ok (listedAlternatives v)

section Conditions

variable {index : Index} {p : FieldPath} {key : String}

theorem cast_comparand_of_null : (comparand p).cast index .null = .ok .null := by
  by_cases harray : (index.lookup p.schema).isArray = true
  · exact cast_comparand_null
  · rw [cast_congr (plan_comparand (by simpa using harray))]
    exact cast_location_null

theorem cast_logical_null (hroot : p.isRoot = false) :
    (logical p).cast index .null = .ok (.array [.null]) := by
  have hitem : (subfilter p 0).cast index .null = .ok .null := by
    by_cases harray : (index.lookup p.schema).isArray = true
    · rw [cast_subfilter_single hroot harray rfl rfl]
      exact cast_location_null
    · rw [cast_subfilter_location hroot (by simpa using harray)]
      exact cast_location_null
  rw [cast_logical_single rfl, hitem]
  rfl

theorem cast_container_null : (container p).cast index .null =
    if index.itemsTakeConditions p = true then .error nullMismatch else .ok .null := by
  cases hl : index.lookup p.element.schema with
  | array => rw [cast_container_misshapen (.inl hl) rfl, Index.itemsTakeConditions, hl]; rfl
  | object => rw [cast_container_misshapen (.inr hl) rfl, Index.itemsTakeConditions, hl]; rfl
  | scalar t =>
    rw [cast_container_scalar hl, cast_scalar_literal rfl, Index.itemsTakeConditions, hl]
    rfl
  | _ =>
    have hkept : (container p).plan index .null = .keep := by
      simp [plan, Plan.container, hl, Plan.keep]
    rw [cast_of_plan_keep hkept, Index.itemsTakeConditions, hl]
    rfl

/-- The operand of one operator. Two kinds of operators do not keep it. -/
theorem cast_condition_null (hroot : p.isRoot = false) (hkey : isKnownOperator key = true) :
    (ofCondition index p key).cast index .null =
      if index.itemsTakeConditions p = true ∧ FilterOperator.ofName key = .container then
        .error nullMismatch
      else .ok (if FilterOperator.ofName key = .logical then .array [.null] else .null) := by
  have hknown : FilterOperator.ofName key ≠ .unknown := of_decide_eq_true hkey
  rw [ofCondition_known hknown]
  cases hname : FilterOperator.ofName key with
  | logical => simpa using cast_logical_null hroot
  | comparison => simpa using cast_comparand_of_null
  | membership => simpa using cast_members_null
  | element selector =>
    rw [cast_fixed, ScalarType.coerce_null]
    simp
  | container => simpa using cast_container_null
  | ignored => simpa using cast_of_plan_keep (r := .keep) (v := .null) rfl
  | unknown => exact absurd hname hknown

theorem plan_comparand_of_operators {fs : Fields} (h : isOperatorObject (.object fs) = true) :
    (comparand p).plan index (.object fs) = (location p).plan index (.object fs) := by
  by_cases harray : (index.lookup p.schema).isArray = true
  · rw [plan_comparand_operators harray h, plan_location_operators harray h]
  · exact plan_comparand (by simpa using harray)

mutual
/-- Under `$not` the operators are read at the same location. -/
theorem cast_comparand_comparesWithNull (hroot : p.isRoot = false)
    (hp : (index.lookup p.schema).isContainer = true) : ∀ v : Value,
    comparesWithNull v = true → (comparand p).cast index v = nullAnswer index p v
  | .object fs, h => by
    have hfs := castFields_condition_null hroot hp fs (operands_of_comparesWithNull h).2
    have hcast : (comparand p).cast index (.object fs) =
        (castFields index (ofCondition index p) fs).map .object := by
      by_cases harray : (index.lookup p.schema).isArray = true
      · exact cast_of_plan_fields
          (plan_comparand_operators harray (isOperatorObject_of_comparesWithNull h))
      · rw [cast_congr (plan_comparand (by simpa using harray))]
        apply cast_location_object
        cases hl : index.lookup p.schema <;> simp_all [Lookup.isArray, Lookup.isContainer]
    rw [hcast, hfs, nullAnswer, usesOperator, listedAlternatives]
    split <;> rfl
  | .null, h => by cases h
  | .bool _, h => by cases h
  | .number _, h => by cases h
  | .string _, h => by cases h
  | .array _, h => by cases h
theorem castFields_condition_null (hroot : p.isRoot = false)
    (hp : (index.lookup p.schema).isContainer = true) : ∀ fs : List (String × Value),
    haveNullOperands fs = true → castFields index (ofCondition index p) fs =
      if index.itemsTakeConditions p = true ∧ useOperator .container fs = true then
        .error nullMismatch
      else .ok (listAlternatives fs)
  | [], _ => by simp [castFields, useOperator, listAlternatives]
  | (key, v) :: fs, h => by
    obtain ⟨hkey, hv, hfs⟩ := haveNullOperands_cons h
    have hrest := castFields_condition_null hroot hp fs hfs
    have hnested := cast_comparand_comparesWithNull hroot hp v
    have hhead : (ofCondition index p key).cast index v =
        if index.itemsTakeConditions p = true ∧
            (FilterOperator.ofName key = .container ∨ usesOperator .container v = true) then
          .error nullMismatch
        else .ok (if FilterOperator.ofName key = .logical then .array [v]
          else listedAlternatives v) := by
      rcases hv with rfl | ⟨rfl, hv⟩
      · simpa [usesOperator, listedAlternatives] using cast_condition_null hroot hkey
      · have hkind : FilterOperator.ofName "$not" = .comparison := by decide
        have hreading : ofCondition index p "$not" = comparand p := rfl
        simpa [hreading, hkind, nullAnswer] using hnested hv
    -- All rejections are the same, so it does not matter which operator comes first.
    rw [castFields_cons, hhead, hrest, listAlternatives, useOperator]
    by_cases hitems : index.itemsTakeConditions p = true
    · by_cases hfirst : FilterOperator.ofName key = .container ∨ usesOperator .container v = true
      · simp [hitems, hfirst, Except.bind]
      · by_cases hothers : useOperator .container fs = true <;>
          simp_all [Except.bind, Except.map]
    · simp [hitems, Except.bind, Except.map]
end

/-- What becomes of operators on `null`, by what the index says of the field. -/
theorem cast_location_comparesWithNull (hroot : index.lookup "" = .undeclared) {v : Value}
    (h : comparesWithNull v = true) : (location p).cast index v =
      if (index.lookup p.schema).isContainer = true then nullAnswer index p v else .ok v := by
  cases v with
  | object fs =>
    by_cases hl : (index.lookup p.schema).isContainer = true
    · have hne : p.schema ≠ "" := by
        intro hempty
        rw [hempty, hroot] at hl
        cases hl
      have hnot : p.isRoot = false := by simp [FieldPath.isRoot, hne]
      rw [if_pos hl, ← cast_comparand_comparesWithNull hnot hl _ h]
      exact (cast_congr (plan_comparand_of_operators (isOperatorObject_of_comparesWithNull h))).symm
    · rw [if_neg hl]
      cases hkind : index.lookup p.schema with
      | undeclared => exact cast_location_unknown (.inl hkind)
      | untyped => exact cast_location_unknown (.inr hkind)
      | scalar t =>
        rw [cast_location_scalar hkind rfl]
        exact cast_scalar_comparesWithNull _ h
      | array => rw [hkind] at hl; exact absurd rfl hl
      | object => rw [hkind] at hl; exact absurd rfl hl
  | _ => cases h

end Conditions

namespace Definition

/-- In a compiled index only the items of an array take conditions. -/
theorem itemsTakeConditions_iff {registry : Registry} {options : CompileOptions}
    {definition : Value} {index : Index} (h : compile registry options definition = .ok index)
    {p : FieldPath} (hp : (index.lookup p.schema).isContainer = true) :
    index.itemsTakeConditions p = true ↔ (index.lookup p.schema).isArray = true ∧
      (index.lookup (join p.schema wildcard)).isContainer = true := by
  show (index.lookup (join p.schema wildcard)).isContainer = true ↔ _
  cases hl : index.lookup p.schema with
  | array => simp [Lookup.isArray]
  | object =>
    have hnone := Index.lookup_of_not_contains (not_contains_item h (.inr hl))
    simp [hnone, Lookup.isContainer, Lookup.isArray]
  | _ => rw [hl] at hp; cases hp

end Definition

namespace Filter

open Definition

/-- A field compared with `null` is kept whatever its type is, and an object of operators on `null`
is kept on every field of no type and of a scalar type. On an object and an array, the operands of
operators on sub-filters become lists, and conditions on items that are containers are rejected. -/
theorem cast_null_operands {registry : Registry} {options : CompileOptions} {definition : Value}
    {index : Index} (h : compile registry options definition = .ok index) {key : String}
    (hkey : isOperator key = false) {v : Value} (hv : comparesWithNull v = true) :
    let field := index.lookup (index.resolve .root key).schema
    let items := index.lookup (join (index.resolve .root key).schema wildcard)
    let rejected := field.isArray = true ∧ items.isContainer = true ∧
      usesOperator .container v = true
    cast index (.object [(key, .null)]) = .ok (.object [(key, .null)]) ∧
      cast index (.object [(key, v)]) =
        (if field.isContainer = false then .ok (.object [(key, v)])
        else if rejected then .error (.ofShape .null objectName)
        else .ok (.object [(key, listedAlternatives v)])) ∧
      (cast index (.object [(key, v)]) = .ok (.object [(key, v)]) ↔
        (field.isContainer = true → usesOperator .logical v = false ∧ ¬ rejected)) := by
  intro field items rejected
  have hcast : cast index (.object [(key, v)]) =
      if field.isContainer = false then .ok (.object [(key, v)])
      else if rejected then .error (.ofShape .null objectName)
      else .ok (.object [(key, listedAlternatives v)]) := by
    rw [cast_single_field hkey, cast_location_comparesWithNull (lookup_empty_of_compile h) hv]
    by_cases hcontainer : field.isContainer = true
    · have hitems := itemsTakeConditions_iff h hcontainer
      by_cases hrejected : rejected
      · rw [if_pos hcontainer, if_neg (by simp [hcontainer]), if_pos hrejected, nullAnswer,
          if_pos ⟨hitems.2 ⟨hrejected.1, hrejected.2.1⟩, hrejected.2.2⟩]
        rfl
      · rw [if_pos hcontainer, if_neg (by simp [hcontainer]), if_neg hrejected, nullAnswer,
          if_neg fun hboth => hrejected ⟨(hitems.1 hboth.1).1, (hitems.1 hboth.1).2, hboth.2⟩]
        rfl
    · rw [if_neg hcontainer, if_pos (by simpa using hcontainer)]
      rfl
  refine ⟨?_, hcast, ?_⟩
  · rw [cast_single_field hkey, cast_location_null]
    rfl
  · rw [hcast, ← listedAlternatives_eq_self_iff v hv]
    by_cases hcontainer : field.isContainer = true <;> by_cases hrejected : rejected <;>
      simp [hcontainer, hrejected]

/-- Operators on `null` are kept on an array of strings and rejected on an array of objects, and on
an object a list is made of the alternatives. -/
theorem cast_null_operands_bands :
    let negated : Value := .object [("$not", .object [("$elemMatch", .null), ("$in", .null)])]
    cast bands (.object [("tags", negated)]) = .ok (.object [("tags", negated)]) ∧
      cast bands (.object [("members", negated)]) = .error (.ofShape .null objectName) ∧
      cast bands (.object [("name", .object [("$and", .null), ("$exists", .null)])]) =
        .ok (.object [("name", .object [("$and", .array [.null]), ("$exists", .null)])]) := by
  intro negated
  have hpath (key : String) (hname : '.' ∉ key.toList ∧ isPositional key = false) :
      bands.resolve .root key = FieldPath.root.child (.key key) :=
    Index.resolve_name hname.1 hname.2 rfl
  refine ⟨?_, ?_, ?_⟩
  · apply (cast_null_operands compile_bands (by decide) (by decide)).2.2.2
    rw [hpath "tags" (by decide)]
    intro _
    exact ⟨by decide, by decide +kernel⟩
  · rw [(cast_null_operands compile_bands (by decide) (by decide)).2.1, hpath "members" (by decide)]
    rfl
  · rw [(cast_null_operands compile_bands (by decide) (by decide)).2.1, hpath "name" (by decide)]
    rfl

end Filter

end TypedDocs
