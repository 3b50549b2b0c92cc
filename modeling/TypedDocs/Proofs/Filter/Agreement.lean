import TypedDocs.Proofs.Filter.Reading
import TypedDocs.Proofs.Schema.Bands
import TypedDocs.Proofs.Schema.Follow

/-!
# Filters without operators are documents

A filter whose keys are plain names is cast as the document it looks like. The two
walks are compared part by part: where the filter cast succeeds no document walk
fails and its result walks as the value did, and where it fails a document walk that
stops at the first failure stops with the same error.
-/

namespace TypedDocs

/-- A name that is no operator, has one segment, and does not address items. -/
def isPlainKey (key : String) : Bool :=
  !isOperator key && !key.toList.contains '.' && !isPositional key

namespace Value

mutual
/-- All keys at any depth are plain. -/
def isPlain : Value → Bool
  | .array xs => arePlainItems xs
  | .object fs => arePlainFields fs
  | _ => true
def arePlainItems : List Value → Bool
  | [] => true
  | x :: xs => x.isPlain && arePlainItems xs
def arePlainFields : List (String × Value) → Bool
  | [] => true
  | (key, x) :: fs => isPlainKey key && x.isPlain && arePlainFields fs
end

end Value

/-- Every array is declared together with a type for its items. -/
def Index.HasTypedArrays (index : Index) : Prop :=
  ∀ ⦃key : String⦄, index.lookup key = .array →
    (index.lookup (join key wildcard)).isTyped = true

/-- It is enough to look at the declared paths. -/
theorem Index.hasTypedArrays_of_all {index : Index}
    (h : (index.paths.keys.all fun key => !(index.lookup key).isArray ||
      (index.lookup (join key wildcard)).isTyped) = true) : index.HasTypedArrays := by
  intro key hl
  have hcontains : index.contains key = true := by
    rw [contains_iff, hl]
    rfl
  obtain ⟨declared, hget⟩ := Option.isSome_iff_exists.1 hcontains
  have hmem : key ∈ index.paths.keys :=
    List.mem_map.2 ⟨_, Dictionary.mem_bindings_of_get? hget, rfl⟩
  have hkey := List.all_eq_true.1 h key hmem
  simpa [hl, Lookup.isArray] using hkey

/-- A cast result against the walks of the value, one for each policy. -/
structure Agrees {α : Type} (r : Except CastError α) (walk : ErrorPolicy → α → Walked α)
    (v : α) : Prop where
  of_ok : ∀ ⦃u : α⦄, r = .ok u →
    ∀ policy, (walk policy v).failures = [] ∧ walk policy u = walk policy v
  of_error : ∀ ⦃e : CastError⦄, r = .error e →
    ∃ path, (walk .failFast v).failures = [(path, e)]

namespace Agrees

variable {α β γ : Type} {r : Except CastError α} {v : α} {walk : ErrorPolicy → α → Walked α}

theorem of_clean (h : ∀ policy, (walk policy v).failures = []) : Agrees (.ok v) walk v where
  of_ok u hu policy := by
    cases hu
    exact ⟨h policy, rfl⟩
  of_error e he := by cases he

theorem of_failed {e : CastError} (path : String)
    (h : (walk .failFast v).failures = [(path, e)]) : Agrees (.error e) walk v where
  of_ok _ hu := by cases hu
  of_error _ he := by
    cases he
    exact ⟨path, h⟩

/-- Agreement on a part is agreement on what is built around the part. -/
theorem map (h : Agrees r walk v) {f : α → β} {g : ErrorPolicy → α → β}
    {walk' : ErrorPolicy → β → Walked β} {v' : β}
    (hv : ∀ policy, walk' policy v' = (walk policy v).map (g policy))
    (hu : ∀ policy u, (walk policy u).failures = [] →
      walk' policy (f u) = (walk policy u).map (g policy)) : Agrees (r.map f) walk' v' where
  of_ok b hb policy := by
    obtain ⟨u, hr, rfl⟩ := Except.map_eq_ok_iff.1 hb
    obtain ⟨hclean, hsame⟩ := h.of_ok hr policy
    have hagain : (walk policy u).failures = [] := by rw [hsame]; exact hclean
    constructor
    · rw [hv]
      exact hclean
    · rw [hv, hu policy u hagain, hsame]
  of_error e he := by
    obtain ⟨path, hpath⟩ := h.of_error (Except.map_eq_error_iff.1 he)
    refine ⟨path, ?_⟩
    rw [hv]
    exact hpath

/-- Agreement on two parts, of which the second is only looked at if the first is cast. -/
theorem bind (h : Agrees r walk v) {s : Except CastError β} {walkRest : ErrorPolicy → β → Walked β}
    {rest : β} (hrest : Agrees s walkRest rest) {f : α → β → γ}
    {walk' : ErrorPolicy → γ → Walked γ}
    (hclean : ∀ policy u us, u = v ∨ r = .ok u → (walk policy u).failures = [] →
      walk' policy (f u us) = (walkRest policy us).map (f (walk policy u).value))
    (hstopped : (walk .failFast v).failures ≠ [] →
      (walk' .failFast (f v rest)).failures = (walk .failFast v).failures) :
    Agrees (r.bind fun u => s.map fun us => f u us) walk' (f v rest) := by
  cases hr : r with
  | error e =>
    obtain ⟨path, hpath⟩ := h.of_error hr
    refine .of_failed path ?_
    rw [hstopped (by simp [hpath]), hpath]
  | ok u =>
    have hu := h.of_ok hr
    refine hrest.map (fun policy => hclean policy v rest (.inl rfl) (hu policy).1)
      fun policy us _ => ?_
    have hsame := (hu policy).2
    have hagain : (walk policy u).failures = [] := by rw [hsame]; exact (hu policy).1
    rw [hclean policy u us (.inr hr) hagain, hsame]

end Agrees

namespace Walker

variable {index : Index} {p : FieldPath} {t : ScalarType} {v : Value}

/-- Where the index declares a lawful scalar type, both casts are its coercion. -/
theorem leaf_agrees (ht : t.Lawful) :
    Agrees (t.coerce v) (fun policy => (caster index policy).leaf t p) v where
  of_ok u hu policy := by
    have hagain := ht.coerce_coerce hu
    simp [leaf, caster, hu, hagain, Walked.clean]
  of_error e he := ⟨p.instanceKey, by simp [leaf, caster, he, Walked.failed]⟩

section Lists

variable {index : Index} {p : FieldPath} {i : Nat} {x y : Value} {xs : List Value}
  {key : String} {fs : Fields} {f : Nat → Reading} {g : String → Reading}

theorem items_agrees_cons
    (hx : Agrees ((f i).cast index x)
      (fun policy => (caster index policy).field (p.child (.index i))) x)
    (hxs : Agrees (Reading.castItems index f (i + 1) xs)
      (fun policy => (caster index policy).items p (i + 1)) xs) :
    Agrees (Reading.castItems index f i (x :: xs))
      (fun policy => (caster index policy).items p i) (x :: xs) := by
  rw [Reading.castItems_cons]
  refine hx.bind hxs (fun policy y ys _ hclean => items_cons_clean hclean) fun hfailed => ?_
  rw [items_cons_stopped (stops_of_failFast rfl hfailed)]

/-- A field is kept or dropped for the sake of its value's being null only, which no cast
changes where an object is declared. -/
theorem keepsField_of_cast (h : (Reading.location (p.child (.key key))).cast index x = .ok y) :
    index.keepsField p.schema key y = index.keepsField p.schema key x := by
  unfold Index.keepsField
  cases hl : index.lookup (join p.schema key) with
  | object =>
    have hl' : index.lookup (p.child (.key key)).schema = .object := hl
    cases x with
    | null =>
      rw [Reading.cast_location_null] at h
      cases h
      rfl
    | object fs =>
      rw [Reading.cast_location_object hl'] at h
      obtain ⟨gs, -, rfl⟩ := Except.map_eq_ok_iff.1 h
      rfl
    | _ =>
      rw [Reading.cast_location_misshapen hl' rfl rfl] at h
      cases h
  | _ => rfl

/-- What a document drops, a filter leaves as it is. -/
theorem cast_of_dropped (h : index.keepsField p.schema key x = false) :
    (Reading.location (p.child (.key key))).cast index x = .ok x := by
  unfold Index.keepsField at h
  cases hl : index.lookup (join p.schema key) with
  | undeclared => exact Reading.cast_location_unknown (.inl hl)
  | object =>
    rw [hl] at h
    cases x with
    | null => exact Reading.cast_location_null
    | _ => cases h
  | _ =>
    rw [hl] at h
    cases h

theorem fields_agrees_cons (hread : g key = .location (p.child (.key key)))
    (hkeep : index.keepsField p.schema key x = true)
    (hx : Agrees ((g key).cast index x)
      (fun policy => (caster index policy).field (p.child (.key key))) x)
    (hfs : Agrees (Reading.castFields index g fs)
      (fun policy => (caster index policy).fields p) fs) :
    Agrees (Reading.castFields index g ((key, x) :: fs))
      (fun policy => (caster index policy).fields p) ((key, x) :: fs) := by
  rw [Reading.castFields_cons]
  refine hx.bind (f := fun y gs => (key, y) :: gs) hfs (fun policy y gs hy hclean => ?_)
    fun hfailed => ?_
  · have hkeepAgain : index.keepsField p.schema key y = true := by
      rcases hy with rfl | hcast
      · exact hkeep
      · rw [keepsField_of_cast (hread ▸ hcast)]
        exact hkeep
    exact fields_cons_clean hkeepAgain hclean
  · have hkept : (caster index .failFast).index.keepsField p.schema key x = true := hkeep
    rw [fields_cons_stopped hkept (stops_of_failFast rfl hfailed)]

/-- A dropped field fails in neither cast, and the filter keeps it for the second walk to drop. -/
theorem fields_agrees_dropped (hread : g key = .location (p.child (.key key)))
    (hkeep : index.keepsField p.schema key x = false)
    (hfs : Agrees (Reading.castFields index g fs)
      (fun policy => (caster index policy).fields p) fs) :
    Agrees (Reading.castFields index g ((key, x) :: fs))
      (fun policy => (caster index policy).fields p) ((key, x) :: fs) := by
  have hhead : (g key).cast index x = .ok x := by
    rw [hread]
    exact cast_of_dropped hkeep
  rw [Reading.castFields_cons, hhead]
  exact hfs.map (g := fun _ gs => gs) (fun policy => fields_cons_dropped hkeep)
    fun policy gs _ => fields_cons_dropped hkeep

end Lists

section Locations

variable {index : Index} {p : FieldPath} {v : Value}

/-- Agreement of the two casts of an operand. -/
abbrev LocationAgrees (index : Index) (p : FieldPath) (v : Value) : Prop :=
  Agrees ((Reading.location p).cast index v) (fun policy => (caster index policy).field p) v

theorem location_agrees_null : LocationAgrees index p .null := by
  rw [LocationAgrees, Reading.cast_location_null]
  exact .of_clean fun _ => rfl

theorem location_agrees_misshapen (hd : index.demand p = .object) (hnull : v.isNull = false)
    (hobject : v.isObject = false) : LocationAgrees index p v := by
  have hl := Index.demand_eq_object_iff.1 hd
  rw [LocationAgrees, Reading.cast_location_misshapen hl hnull hobject]
  have hwalk : ((caster index .failFast).field p v).failures =
      [(p.instanceKey, .ofShape v objectName)] := by
    rw [field_misshapen hd hnull hobject]
    rfl
  exact .of_failed _ hwalk

theorem location_agrees_at_rest (hrules : index.HasBuiltinRules) (htyped : index.HasTypedArrays)
    (hnull : v.isNull = false) (hops : Reading.hasOperators v = false)
    (hi : index.demand p ≠ .items) (ho : index.demand p ≠ .object) : LocationAgrees index p v := by
  cases hdemand : index.demand p with
  | items => exact absurd hdemand hi
  | object => exact absurd hdemand ho
  | scalar t =>
    have hl := Index.demand_eq_scalar_iff.1 hdemand
    rw [LocationAgrees, Reading.cast_location_scalar hl hnull, Reading.cast_scalar_literal hops]
    have hleaf : Agrees (t.coerce v) (fun policy => (caster index policy).leaf t p) v :=
      leaf_agrees (hrules.lawful hl)
    have hfield : (fun policy => (caster index policy).field p) =
        fun policy => (caster index policy).leaf t p := by
      funext policy u
      exact field_scalar hdemand
    rwa [hfield]
  | nothing =>
    have hunknown : index.lookup p.schema = .undeclared ∨ index.lookup p.schema = .untyped := by
      rcases Index.lookup_of_demand_nothing hdemand with hl | hl | hl
      · exact .inl hl
      · exact .inr hl
      · simp [Index.demand, hl, htyped hl] at hdemand
    rw [LocationAgrees, Reading.cast_location_unknown hunknown]
    apply Agrees.of_clean
    intro policy
    rw [field_nothing hdemand]
    rfl

/-- A single value is made an array by both casts. -/
theorem location_agrees_promoted (hv : Reading.IsSingle v) (hd : index.demand p = .items)
    (h : LocationAgrees index (p.child (.index 0)) v) : LocationAgrees index p v := by
  rw [LocationAgrees, Reading.cast_location_single (Index.isArray_of_demand_items hd) hv]
  refine h.map (g := fun _ u => .array [u]) (fun policy => ?_) fun policy u hclean => ?_
  · exact field_promoted hd hv.not_null hv.not_array
  · rw [field_items hd, items_cons_clean hclean, items]
    simp only [Walked.map, Walked.clean, hclean]

/-- A plain key is read at the field it names. -/
theorem ofCondition_plain {key : String} (hkey : isPlainKey key = true)
    (hp : (index.lookup p.schema).isArray = false) :
    Reading.ofCondition index p key = .location (p.child (.key key)) := by
  simp only [isPlainKey, Bool.and_eq_true, Bool.not_eq_true', List.contains_eq_mem,
    decide_eq_false_iff_not] at hkey
  obtain ⟨⟨hop, hundotted⟩, hname⟩ := hkey
  rw [Reading.ofCondition, if_neg (by simp [hop]), Index.resolve_name hundotted hname hp]

theorem hasOperators_of_plain (h : v.isPlain = true) : Reading.hasOperators v = false := by
  cases v with
  | object fs =>
    simp only [Value.isPlain] at h
    simp only [Reading.hasOperators, List.any_eq_false]
    induction fs with
    | nil => simp
    | cons first fs ih =>
      obtain ⟨key, x⟩ := first
      simp only [Value.arePlainFields, Bool.and_eq_true] at h
      obtain ⟨⟨hkey, -⟩, hrest⟩ := h
      simp only [isPlainKey, Bool.and_eq_true, Bool.not_eq_true'] at hkey
      intro f hf
      rcases List.mem_cons.1 hf with rfl | hf
      · simp [hkey.1.1]
      · exact ih hrest f hf
  | _ => rfl

end Locations

/-- Both casts of a plain operand agree, at every location. -/
theorem agrees {index : Index} (hrules : index.HasBuiltinRules) (htyped : index.HasTypedArrays) :
    Cases index (fun v p => v.isPlain = true → LocationAgrees index p v)
      (fun xs p i => Value.arePlainItems xs = true →
        Agrees (Reading.castItems index (fun i => .location (p.child (.index i))) i xs)
          (fun policy => (caster index policy).items p i) xs)
      (fun fs p => Value.arePlainFields fs = true → (index.lookup p.schema).isArray = false →
        Agrees (Reading.castFields index (Reading.ofCondition index p) fs)
          (fun policy => (caster index policy).fields p) fs) where
  null _ _ := location_agrees_null
  array hd h hplain := by
    rw [LocationAgrees, Reading.cast_location_items (Index.isArray_of_demand_items hd)]
    exact (h hplain).map (fun _ => field_items hd) fun _ _ _ => field_items hd
  promoted hd hnull harray h hplain :=
    location_agrees_promoted
      (Reading.isSingle_of_no_operators hnull harray (hasOperators_of_plain hplain)) hd (h hplain)
  object hd h hplain := by
    have hl := Index.demand_eq_object_iff.1 hd
    rw [LocationAgrees, Reading.cast_location_object hl]
    exact (h hplain (by rw [hl]; rfl)).map (fun _ => field_object hd rfl)
      fun _ _ _ => field_object hd rfl
  misshapen hd hnull hobject _ := location_agrees_misshapen hd hnull hobject
  atom hi ho hnull hplain :=
    location_agrees_at_rest hrules htyped hnull (hasOperators_of_plain hplain) hi ho
  noItems _ _ _ := .of_clean fun _ => rfl
  item hx hxs hplain := by
    simp only [Value.arePlainItems, Bool.and_eq_true] at hplain
    exact items_agrees_cons (hx hplain.1) (hxs hplain.2)
  noFields _ _ _ := .of_clean fun _ => rfl
  kept hkeep hx hfs hplain hp := by
    simp only [Value.arePlainFields, Bool.and_eq_true] at hplain
    obtain ⟨⟨hkey, hvalue⟩, hrest⟩ := hplain
    have hread := ofCondition_plain hkey hp
    refine fields_agrees_cons hread hkeep ?_ (hfs hrest hp)
    rw [hread]
    exact hx hvalue
  dropped hkeep hfs hplain hp := by
    simp only [Value.arePlainFields, Bool.and_eq_true] at hplain
    exact fields_agrees_dropped (ofCondition_plain hplain.1.1 hp) hkeep (hfs hplain.2 hp)

end Walker

namespace Filter

open Walker

/-- The whole filter is cast as the document it looks like. -/
theorem walk_agrees {index : Index} (hrules : index.HasBuiltinRules)
    (htyped : index.HasTypedArrays) (hroot : (index.lookup "").isArray = false) {v : Value}
    (hplain : v.isPlain = true) :
    Agrees (cast index v) (fun policy => Document.walk index { policy }) v := by
  cases v with
  | object fs =>
    exact ((agrees hrules htyped).fields fs .root hplain hroot).map (fun _ => rfl)
      fun _ _ _ => rfl
  | _ => exact .of_failed "" rfl

/-- A filter of plain names succeeds exactly if the document cast does, its result is cast as the
filter itself would be, and its error is the one that the document cast stops with. -/
theorem cast_agrees_document_cast {registry : Registry} {options : CompileOptions}
    {definition : Value} {index : Index}
    (hcompile : Definition.compile registry options definition = .ok index)
    (hregistry : registry.HasBuiltinRules) (htyped : index.HasTypedArrays) {v : Value}
    (hplain : v.isPlain = true) :
    ((∃ u, cast index v = .ok u) ↔
      (Document.cast index { policy := .failFast } v).errors = none) ∧
    (∀ u, cast index v = .ok u → ∀ policy,
      (Document.cast index { policy := policy } u).errors = none ∧
      Document.cast index { policy := policy } u = Document.cast index { policy := policy } v) ∧
    ∀ e, cast index v = .error e →
      ∃ path, (Document.cast index { policy := .failFast } v).errors.map Dictionary.bindings =
        some [(path, e)] := by
  have hrules := Definition.hasBuiltinRules_of_compile hregistry hcompile
  have hroot : (index.lookup "").isArray = false := by
    rw [Definition.lookup_empty_of_compile hcompile]
    rfl
  have hagrees := walk_agrees hrules htyped hroot hplain
  have hclean : ∀ u, cast index v = .ok u → ∀ policy,
      (Document.cast index { policy := policy } v).errors = none := by
    intro u hu policy
    rw [Document.cast, (hagrees.of_ok hu policy).1]
    rfl
  have hfailed : ∀ e, cast index v = .error e → ∃ path,
      (Document.cast index { policy := .failFast } v).errors.map Dictionary.bindings =
        some [(path, e)] := by
    intro e he
    obtain ⟨path, hpath⟩ := hagrees.of_error he
    refine ⟨path, ?_⟩
    rw [Document.cast, hpath]
    rfl
  refine ⟨⟨fun ⟨u, hu⟩ => hclean u hu .failFast, fun hnone => ?_⟩, fun u hu policy => ?_, hfailed⟩
  · cases hcast : cast index v with
    | ok u => exact ⟨u, rfl⟩
    | error e =>
      obtain ⟨path, hpath⟩ := hfailed e hcast
      rw [hnone] at hpath
      cases hpath
  · have hsame : Document.cast index { policy := policy } u =
        Document.cast index { policy := policy } v := by
      rw [Document.cast, Document.cast, (hagrees.of_ok hu policy).2]
    exact ⟨hsame ▸ hclean u hu policy, hsame⟩

theorem bands_hasTypedArrays : bands.HasTypedArrays :=
  Index.hasTypedArrays_of_all (by rfl)

/-- A single text for the tags and a single object for the members can be asked for. -/
theorem cast_agrees_document_cast_bands :
    bands.HasTypedArrays ∧ ∃ u, cast bands (.object [("tags", .string "rock"),
      ("members", .object [("born", .string "1962")])]) = .ok u :=
  ⟨bands_hasTypedArrays, (cast_agrees_document_cast compile_bands
    Registry.builtin_hasBuiltinRules bands_hasTypedArrays rfl).1.2 (by decide +kernel)⟩

end Filter

end TypedDocs
