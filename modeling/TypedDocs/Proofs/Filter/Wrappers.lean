import TypedDocs.Proofs.Filter.Reading
import TypedDocs.Proofs.Scalar.Lawful
import TypedDocs.Proofs.Schema.Bands
import TypedDocs.Proofs.Schema.Follow

/-!
# Literals that look like operators

An object identifier, a date or a regular expression is written as an object with one
field, and the name of that field begins as an operator does. Where a scalar is
declared, a filter takes such an object for one of unknown operators and leaves it
alone, whatever the type is. All other literals it coerces. A document cast coerces
both, so the two disagree on the wrappers of values of another type, and on nothing else.
-/

namespace TypedDocs

open Reading

/-- An object with one field that stands for a single value. -/
def isValueWrapper : Value → Bool
  | .object [(name, _)] => valueWrappers.contains name
  | _ => false

def isLiteral (v : Value) : Bool := !hasOperators v || isValueWrapper v

section Wrappers

variable {v : Value}

theorem eq_of_isValueWrapper (h : isValueWrapper v = true) :
    ∃ name inner, name ∈ valueWrappers ∧ v = .object [(name, inner)] := by
  unfold isValueWrapper at h
  split at h
  · rename_i name inner
    exact ⟨name, inner, List.contains_iff_mem.1 h, rfl⟩
  · cases h

theorem eq_of_onlyField? {key : String} {inner : Value} (h : v.onlyField? key = some inner) :
    v = .object [(key, inner)] := by
  unfold Value.onlyField? at h
  split at h
  · split at h
    · rename_i hkey
      cases h
      rw [hkey]
    · cases h
  · cases h

theorem isValueWrapper_of_onlyField? (key : String) (hkey : key ∈ valueWrappers)
    (h : (v.onlyField? key).isSome = true) : isValueWrapper v = true := by
  obtain ⟨inner, hinner⟩ := Option.isSome_iff_exists.1 h
  rw [eq_of_onlyField? hinner]
  exact List.contains_iff_mem.2 hkey

theorem unknown_of_mem_valueWrappers {name : String} (h : name ∈ valueWrappers) :
    isOperator name = true ∧ FilterOperator.ofName name = .unknown := by
  have hall : ∀ name ∈ valueWrappers,
      isOperator name = true ∧ FilterOperator.ofName name = .unknown := by decide
  exact hall name h

theorem hasOperators_of_isValueWrapper (h : isValueWrapper v = true) : hasOperators v = true := by
  obtain ⟨name, inner, hname, rfl⟩ := eq_of_isValueWrapper h
  have hoperator := (unknown_of_mem_valueWrappers hname).1
  simp [hasOperators, hoperator]

theorem isValueWrapper_of_isLiteral (hv : isLiteral v = true) (ho : hasOperators v = true) :
    isValueWrapper v = true := by
  simpa [isLiteral, ho] using hv

end Wrappers

namespace ScalarType

variable {t : ScalarType} {v : Value}

/-- A coercion that changes nothing has nothing to do. -/
theorem coerce_eq_self_iff (ht : t.Lawful) : t.coerce v = .ok v ↔ t.accepts v = true := by
  constructor
  · intro h
    exact ht.accepts_of_coerce h
  · intro h
    exact coerce_of_accepts h

/-- A value of a built-in type is a text, a number, a truth value or a wrapper. -/
theorem IsBuiltin.cases_of_satisfies (ht : t.IsBuiltin) (h : t.satisfies v = true) :
    (v.isNull = false ∧ v.isArray = false ∧ v.isObject = false) ∨ isValueWrapper v = true := by
  cases ht with
  | string =>
    cases v with
    | string s => exact .inl ⟨rfl, rfl, rfl⟩
    | _ => cases h
  | number =>
    cases v with
    | number n => exact .inl ⟨rfl, rfl, rfl⟩
    | _ => cases h
  | boolean =>
    cases v with
    | bool b => exact .inl ⟨rfl, rfl, rfl⟩
    | _ => cases h
  | objectId =>
    refine .inr (isValueWrapper_of_onlyField? "$oid" (by decide) ?_)
    simp only [ScalarType.objectId, objectIdHex?] at h
    cases hinner : v.onlyField? "$oid" with
    | some inner => rfl
    | none => simp [hinner] at h
  | date => exact .inr (isValueWrapper_of_onlyField? "$date" (by decide) h)
  | regexp =>
    refine .inr (isValueWrapper_of_onlyField? "$regularExpression" (by decide) ?_)
    simp only [regexpWith, ScalarType.regexp] at h
    cases hinner : v.onlyField? "$regularExpression" with
    | some inner => rfl
    | none => simp [hinner] at h

end ScalarType

namespace Reading

variable {index : Index} {t : ScalarType} {p : FieldPath} {v : Value}

theorem cast_scalar_wrapper (h : isValueWrapper v = true) : (scalar t).cast index v = .ok v := by
  cases hs : t.satisfies v with
  | true => exact cast_scalar_satisfied hs
  | false =>
    have ho := hasOperators_of_isValueWrapper h
    obtain ⟨name, inner, hname, rfl⟩ := eq_of_isValueWrapper h
    have hkept : castFields index (ofScalarOperand t) [(name, inner)] = .ok [(name, inner)] := by
      refine castFields_of_kept fun f hf => ?_
      rw [List.mem_singleton.1 hf, ofScalarOperand_eq, (unknown_of_mem_valueWrappers hname).2]
      exact cast_of_plan_keep rfl
    rw [cast_scalar_operators hs ho, hkept]
    rfl

/-- Where a scalar is declared, a wrapper is left alone and any other literal is coerced. -/
theorem cast_location_literal (hlookup : index.lookup p.schema = .scalar t)
    (hv : isLiteral v = true) :
    (location p).cast index v = if hasOperators v then .ok v else t.coerce v := by
  cases hnull : v.isNull with
  | true =>
    obtain rfl := Value.eq_null hnull
    exact cast_location_null
  | false =>
    rw [cast_location_scalar hlookup hnull]
    cases ho : hasOperators v with
    | true => exact cast_scalar_wrapper (isValueWrapper_of_isLiteral hv ho)
    | false => exact cast_scalar_literal ho

end Reading

/-- A document with one field, of a scalar type, is cast by coercing the field. -/
theorem Document.toExcept_walk_scalar {index : Index} {key : String} {t : ScalarType}
    (hlookup : index.lookup key = .scalar t) (policy : ErrorPolicy) (v : Value) :
    (walk index { policy } (.object [(key, v)])).toExcept =
      (t.coerce v).map fun u => .object [(key, u)] := by
  have hschema : (FieldPath.root.child (.key key)).schema = key := rfl
  have hfield := Walker.field_scalar (w := Walker.caster index policy) (v := v)
    (Index.demand_eq_scalar_iff.2 (hschema ▸ hlookup))
  have hkeep : index.keepsField "" key v = true := by
    have hjoin : join "" key = key := rfl
    rw [Index.keepsField, hjoin, hlookup]
  rw [walk_field hkeep, Walked.toExcept_map, hfield, Walker.toExcept_leaf t rfl]

namespace Filter

variable {index : Index} {key : String} {t : ScalarType} {v : Value}

/-- A literal on a field of a scalar type is cast as a document casts it, unless it is the wrapper
of a value of another type, which is left as it is. -/
theorem cast_literal (hkey : isOperator key = false)
    (hlookup : index.lookup (index.resolve .root key).schema = .scalar t)
    (ht : t.IsBuiltin) (hv : isLiteral v = true) :
    cast index (.object [(key, v)]) =
        (if hasOperators v then .ok v else t.coerce v).map (fun u => .object [(key, u)]) ∧
      (cast index (.object [(key, v)]) = (t.coerce v).map (fun u => .object [(key, u)]) ↔
        hasOperators v = false ∨ t.satisfies v = true) ∧
      ((index.resolve .root key).schema = key → ∀ policy,
        (Document.walk index { policy := policy } (.object [(key, v)])).toExcept =
          (t.coerce v).map fun u => .object [(key, u)]) := by
  have hcast : cast index (.object [(key, v)]) =
      (if hasOperators v then .ok v else t.coerce v).map fun u => .object [(key, u)] := by
    rw [cast_single_field hkey, cast_location_literal hlookup hv]
  refine ⟨hcast, ?_, ?_⟩
  · rw [hcast]
    cases ho : hasOperators v with
    | false => simp
    | true =>
      have hwrapper := isValueWrapper_of_isLiteral hv ho
      have hnull : v.isNull = false := by
        obtain ⟨name, inner, -, rfl⟩ := eq_of_isValueWrapper hwrapper
        rfl
      have hself := ScalarType.coerce_eq_self_iff (v := v) ht.lawful
      rw [ScalarType.accepts, hnull, Bool.false_or] at hself
      rw [if_pos rfl, ← hself]
      constructor
      · intro heq
        obtain ⟨u, hu, hsame⟩ := Except.map_eq_ok_iff.1 heq.symm
        simp only [Value.object.injEq, List.cons.injEq, Prod.mk.injEq, and_true, true_and] at hsame
        exact .inr (hsame ▸ hu)
      · intro hu
        rw [hu.resolve_left (by simp)]
  · intro hschema policy
    exact Document.toExcept_walk_scalar (hschema ▸ hlookup) policy v

/-- A year of birth that is written as an object identifier: a filter keeps it, and a document with
it is rejected. -/
theorem cast_literal_bands :
    let v : Value := .object [("$oid", .string "507f1f77bcf86cd799439011")]
    cast bands (.object [("born", v)]) = .ok (.object [("born", v)]) ∧
      (Document.walk bands {} (.object [("born", v)])).toExcept = .error (.ofType v "Number") := by
  intro v
  have hpath : bands.resolve .root "born" = FieldPath.root.child (.key "born") :=
    Index.resolve_name (by decide) (by decide) rfl
  have hlookup : bands.lookup (bands.resolve .root "born").schema = .scalar .number := by
    rw [hpath]
    rfl
  have hliteral := cast_literal (v := v) (by decide) hlookup .number (by decide)
  have hrejected := hliteral.2.2 (by rw [hpath]; rfl) .accumulate
  exact ⟨hliteral.1, hrejected⟩

end Filter

end TypedDocs
