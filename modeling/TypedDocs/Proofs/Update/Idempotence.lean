import TypedDocs.Proofs.Document.Change
import TypedDocs.Proofs.Document.FirstFailure
import TypedDocs.Proofs.Document.Idempotence
import TypedDocs.Proofs.Filter.Wrappers
import TypedDocs.Proofs.Json.Names
import TypedDocs.Proofs.Update.Typed

/-!
# A second update cast changes nothing

What a successful cast makes of an update, a second cast under the same options leaves as it
is, although the update may have another form by then: fields have become the operand of
`$set`, names have been dropped, and single values have become lists. Conditions under
`$pull` are left out, because they are cast as filters are.
-/

namespace TypedDocs

open Reading

namespace Update

variable {index : Index} {p : FieldPath} {v w : Value}

section Locations

theorem castField_again (hends : index.EndsInTypes) (h : castField index p v = .ok w) :
    castField index p w = .ok w := by
  have hrepeats : Repeats ((Walker.caster index .failFast).field p) v :=
    (Walker.repeats hends).field v p
  have hvalue : ((Walker.caster index .failFast).field p v).value = w :=
    (Walked.toExcept_eq_ok_iff.1 h).2
  rw [Repeats, hvalue] at hrepeats
  have hagain : castField index p w = castField index p v := congrArg Walked.toExcept hrepeats
  rw [hagain, h]

/-- What a cast leaves at a location differs from what was there as a walk to the end allows. -/
theorem faithful_of_castField (h : castField index p v = .ok w) :
    Change.Faithful index true ⟨.field, p, v, w⟩ := by
  have hfirst := (Walker.stopsAtFirst (Walker.thorough index)).field v p
  have hfull : ((Walker.thorough index).field p v).toExcept = .ok w := hfirst.toExcept.symm.trans h
  have hwalked : Change.IsWalked (Walker.thorough index) ⟨.field, p, v, w⟩ :=
    (Walked.toExcept_eq_ok_iff.1 hfull).2.symm
  exact hwalked.faithful rfl

theorem isNull_of_castField (hd : index.demand p = .object) (hv : v.isNull = false)
    (h : castField index p v = .ok w) : w.isNull = false := by
  have hvalue : ((Walker.caster index .failFast).field p v).value = w :=
    (Walked.toExcept_eq_ok_iff.1 h).2
  rw [← hvalue]
  exact Walker.isNull_field_of_object hd hv

end Locations

section Appended

theorem listsItems_of_not_object (h : v.isObject = false) : listsItems v = false := by
  cases v with
  | object fs => cases h
  | _ => rfl

theorem listsItems_of_wrapper (h : isValueWrapper v = true) : listsItems v = false := by
  obtain ⟨name, inner, hname, rfl⟩ := eq_of_isValueWrapper h
  have hne : name ≠ eachKey := by
    rintro rfl
    exact absurd hname (by decide)
  simp [listsItems, Fields.get?, hne]

theorem listsItems_of_coerce {t : ScalarType} (ht : t.IsBuiltin)
    (hv : listsItems v = false) (h : t.coerce v = .ok w) : listsItems w = false := by
  cases haccepts : t.accepts v with
  | true =>
    rw [ScalarType.coerce_of_accepts haccepts] at h
    cases h
    exact hv
  | false =>
    rw [ScalarType.coerce, if_neg (by simp [haccepts])] at h
    rcases ht.cases_of_satisfies (ht.satisfies_of_convert h) with ⟨-, -, hobject⟩ | hwrapper
    · exact listsItems_of_not_object hobject
    · exact listsItems_of_wrapper hwrapper

/-- A single item is not cast to something that would be read as a list of items. -/
theorem listsItems_of_castField (hrules : index.HasBuiltinRules) (hv : listsItems v = false)
    (h : castField index p v = .ok w) : listsItems w = false := by
  have hfaithful := faithful_of_castField h
  cases hd : index.demand p with
  | nothing =>
    have hsame : w = v := hfaithful.untouched hd
    rw [hsame, hv]
  | items =>
    cases hnull : v.isNull with
    | true =>
      have hw : w = .null := hfaithful.null hd (by cases v <;> first | rfl | cases hnull)
      rw [hw]
      rfl
    | false =>
      cases harray : v.isArray with
      | true =>
        cases v with
        | array xs =>
          obtain ⟨ys, hys, -⟩ := hfaithful.items hd xs rfl
          exact listsItems_of_not_object (by rw [show w = .array ys from hys]; rfl)
        | _ => cases harray
      | false =>
        obtain ⟨y, hy⟩ := hfaithful.single hd hnull harray
        exact listsItems_of_not_object (by rw [show w = .array [y] from hy]; rfl)
  | scalar t =>
    have ht : t.IsBuiltin := hrules (Index.demand_eq_scalar_iff.1 hd)
    rw [castField, Walker.field_scalar hd, Walker.toExcept_leaf t rfl] at h
    exact listsItems_of_coerce ht hv h
  | object =>
    cases hobject : v.isObject with
    | false =>
      have hsame : w = v := hfaithful.misshapen hd hobject
      rw [hsame, hv]
    | true =>
      cases v with
      | object fs =>
        obtain ⟨gs, hgs, hnames⟩ := hfaithful.names hd fs rfl
        rw [show w = .object gs from hgs]
        rw [listsItems, Bool.eq_false_iff, Ne, Fields.isSome_get?_iff] at hv ⊢
        rw [hnames]
        exact fun hmem => hv ((List.filter_sublist.map Prod.fst).subset hmem)
      | _ => cases hobject

theorem castAppended_again (hrules : index.HasBuiltinRules)
    (h : castAppended index p v = .ok w) : castAppended index p w = .ok w := by
  have hends := hrules.endsInTypes
  cases harray : (index.lookup p.schema).isArray with
  | false => exact castAppended_elsewhere harray
  | true =>
    cases hone : listsItems v with
    | false =>
      rw [castAppended_one harray hone] at h
      rw [castAppended_one harray (listsItems_of_castField hrules hone h)]
      exact castField_again hends h
    | true =>
      cases v with
      | object modifiers =>
        obtain ⟨items, hsome⟩ := Option.isSome_iff_exists.1 hone
        rw [castAppended_several harray hsome] at h
        obtain ⟨cast, hcast, rfl⟩ := Except.map_eq_ok_iff.1 h
        obtain ⟨ys, hys, rfl⟩ := Except.map_eq_ok_iff.1 hcast
        have hagain : castItems index p.element (.array ys) = .ok (.array ys) := by
          have hmapM := Except.mapM_again (fun x y => castField_again hends) hys
          rw [castItems, Value.promoted, hmapM]
          rfl
        rw [castAppended_several harray (Fields.get?_assign_self modifiers eachKey _), hagain,
          Except.map, Fields.assign_assign]
      | _ => cases hone

end Appended

section Operands

variable {category : UpdateOperator} {key name : String} {fs gs : Fields}

theorem castEntry_again (hrules : index.HasBuiltinRules) (hpull : category ≠ .pull)
    (h : castEntry index category key v = .ok w) : castEntry index category key w = .ok w := by
  cases category with
  | fields => exact castField_again hrules.endsInTypes h
  | pullAll => exact castField_again hrules.endsInTypes h
  | append => exact castAppended_again hrules h
  | pop => exact ScalarType.lawful_number.coerce_coerce h
  | pathsOnly => rfl
  | unknown => rfl
  | pull => exact absurd rfl hpull

/-- A name that an operand keeps is kept again when its value has been cast. -/
theorem keepsName_castEntry (hkeep : keepsName index (dropsNullObjects category) key v = true)
    (h : castEntry index category key v = .ok w) :
    keepsName index (dropsNullObjects category) key w = true := by
  unfold keepsName at hkeep ⊢
  cases hl : index.lookup (resolve index key).schema with
  | object =>
    simp only [hl, Bool.not_eq_true', Bool.and_eq_false_iff] at hkeep ⊢
    rcases hkeep with hdrops | hnull
    · exact .inl hdrops
    · cases hdrops : dropsNullObjects category with
      | false => exact .inl rfl
      | true =>
        have hfield : castField index (resolve index key) v = .ok w := by
          cases category with
          | fields => exact h
          | pullAll => exact h
          | _ => cases hdrops
        exact .inr (isNull_of_castField (Index.demand_eq_object_iff.2 hl) hnull hfield)
  | _ => simp_all

theorem mem_of_castEach {f : String → Value → Except CastError Value}
    (h : castEach f fs = .ok gs) {g : String × Value} (hg : g ∈ gs) :
    ∃ v, (g.1, v) ∈ fs ∧ f g.1 v = .ok g.2 := by
  induction fs generalizing gs with
  | nil =>
    cases h
    cases hg
  | cons first fs ih =>
    obtain ⟨key, v⟩ := first
    rw [castEach_cons] at h
    obtain ⟨w, hw, h⟩ := Except.bind_eq_ok_iff.1 h
    obtain ⟨ws, hws, rfl⟩ := Except.map_eq_ok_iff.1 h
    rcases List.mem_cons.1 hg with rfl | hg
    · exact ⟨v, List.mem_cons_self, hw⟩
    · obtain ⟨u, hu, hcast⟩ := ih hws hg
      exact ⟨u, List.mem_cons_of_mem _ hu, hcast⟩

/-- Where a second cast of each field changes nothing, neither does one of all fields. -/
theorem castEach_again {f : String → Value → Except CastError Value}
    (hf : ∀ a ∈ fs, ∀ w, f a.1 a.2 = .ok w → f a.1 w = .ok w) (h : castEach f fs = .ok gs) :
    castEach f gs = .ok gs := by
  induction fs generalizing gs with
  | nil =>
    cases h
    rfl
  | cons first fs ih =>
    obtain ⟨key, v⟩ := first
    rw [castEach_cons] at h
    obtain ⟨w, hw, h⟩ := Except.bind_eq_ok_iff.1 h
    obtain ⟨ws, hws, rfl⟩ := Except.map_eq_ok_iff.1 h
    have hrest := ih (fun a ha => hf a (List.mem_cons_of_mem _ ha)) hws
    rw [castEach_cons, hf (key, v) List.mem_cons_self w hw, hrest]
    rfl

theorem castOperand_again (hrules : index.HasBuiltinRules) (hpull : category ≠ .pull)
    (h : castOperand index category fs = .ok gs) : castOperand index category gs = .ok gs := by
  by_cases hknown : category = .unknown
  · rw [hknown]
    rfl
  · rw [castOperand_eq_castEach hknown] at h ⊢
    have hkept : prune index (dropsNullObjects category) gs = gs := by
      refine List.filter_eq_self.2 fun g hg => ?_
      obtain ⟨v, hv, hcast⟩ := mem_of_castEach h hg
      exact keepsName_castEntry (List.mem_filter.1 hv).2 hcast
    rw [hkept]
    exact castEach_again (fun _ _ _ => castEntry_again hrules hpull) h

theorem castOperator_object : castOperator index name (.object fs) =
    (castOperand index (UpdateOperator.ofName name) fs).map .object := by
  unfold castOperator
  split
  · rename_i hunknown
    rw [hunknown]
    rfl
  · rename_i heq _
    cases heq
    rfl
  · rename_i hobject
    exact absurd rfl (hobject fs)

theorem castOperator_again (hrules : index.HasBuiltinRules)
    (hpull : UpdateOperator.ofName name ≠ .pull) (h : castOperator index name v = .ok w) :
    castOperator index name w = .ok w := by
  unfold castOperator at h
  split at h
  · rename_i hunknown
    unfold castOperator
    rw [hunknown]
  · obtain ⟨gs, hgs, rfl⟩ := Except.map_eq_ok_iff.1 h
    rw [castOperator_object, castOperand_again hrules hpull hgs]
    rfl
  · cases h

end Operands

/-- Whether an update removes the items that meet a condition. -/
def hasConditions : Value → Bool
  | .object fields => Fields.contains fields "$pull"
  | _ => false

theorem not_pull_of_no_conditions {fields : Fields} (h : hasConditions (.object fields) = false) :
    ∀ f ∈ fields, UpdateOperator.ofName f.1 ≠ .pull := by
  intro f hf hpull
  have hlookup : updateOperators.lookup f.1 = some .pull := by
    cases hl : updateOperators.lookup f.1 with
    | none => rw [UpdateOperator.ofName, hl] at hpull; cases hpull
    | some category => rw [UpdateOperator.ofName, hl] at hpull; exact congrArg some hpull
  obtain ⟨before, after, heq, -⟩ := List.lookup_eq_some_iff.1 hlookup
  have hrow : (f.1, UpdateOperator.pull) ∈ updateOperators := by
    rw [heq]
    exact List.mem_append_right _ List.mem_cons_self
  have hname : ∀ row ∈ updateOperators, row.2 = .pull → row.1 = "$pull" := by decide
  have hnone := List.any_eq_false.1 h f hf
  exact hnone (decide_eq_true (hname _ hrow rfl))

/-- The forms of an update that can be cast. -/
theorem forms_of_cast {options : UpdateOptions} {update result : Value}
    (h : cast index options update = .ok result) :
    (∃ stages, update = .array stages) ∨ ∃ fields, update = .object fields ∧
      ((∀ f ∈ fields, isOperator f.1 = true) ∨
        (fields ≠ [] ∧ ∀ f ∈ fields, isOperator f.1 = false)) := by
  cases update with
  | array stages => exact .inl ⟨stages, rfl⟩
  | object fields =>
    refine .inr ⟨fields, rfl, ?_⟩
    cases hfield : fields.find? (!isOperator ·.1) with
    | none => exact .inl fun f hf => by simpa using List.find?_eq_none.1 hfield f hf
    | some field =>
      have hne : fields ≠ [] := List.ne_nil_of_mem (List.mem_of_find?_eq_some hfield)
      cases hoperator : fields.find? (isOperator ·.1) with
      | none =>
        exact .inr ⟨hne, fun f hf => by simpa using List.find?_eq_none.1 hoperator f hf⟩
      | some operator =>
        rw [cast, hoperator, hfield] at h
        cases h
  | _ => cases h

/-- A second cast of an update without conditions returns what the first one returned. -/
theorem cast_unchanged {index : Index} (hrules : index.HasBuiltinRules) (options : UpdateOptions)
    {update result : Value} (hpull : hasConditions update = false)
    (h : cast index options update = .ok result) : cast index options result = .ok result := by
  rcases forms_of_cast h with ⟨stages, rfl⟩ | ⟨fields, rfl, hops | ⟨hne, hplain⟩⟩
  · cases h
    rfl
  · rw [cast_operators hops] at h
    obtain ⟨gs, hgs, rfl⟩ := Except.map_eq_ok_iff.1 h
    have hops' : ∀ g ∈ gs, isOperator g.1 = true := by
      intro g hg
      obtain ⟨v, hv, -⟩ := mem_of_castEach hgs hg
      exact hops (g.1, v) hv
    have hagain : castEach (castOperator index) gs = .ok gs :=
      castEach_again (fun f hf _ =>
        castOperator_again hrules (not_pull_of_no_conditions hpull f hf)) hgs
    rw [cast_operators hops', hagain]
    rfl
  · rw [cast_fields hne hplain] at h
    obtain ⟨gs, hgs, rfl⟩ := Except.map_eq_ok_iff.1 h
    have hpull' : UpdateOperator.fields ≠ .pull := by decide
    have hagain : castFields index gs = .ok gs := castOperand_again hrules hpull' hgs
    have hplain' : ∀ g ∈ gs, isOperator g.1 = false := by
      intro g hg
      obtain ⟨v, hv, -⟩ := mem_of_castEach hgs hg
      exact hplain (g.1, v) (List.mem_filter.1 hv).1
    obtain ⟨overwrite⟩ := options
    cases overwrite with
    | false =>
      -- The fields have become the operand of an operator.
      have hset : castOperator index "$set" (.object gs) = .ok (.object gs) := by
        rw [castOperator_fields (.inl rfl), hagain]
        rfl
      rw [if_neg (by simp), cast_operator (by decide), hset]
      rfl
    | true =>
      rw [if_pos rfl]
      by_cases hempty : gs = []
      · rw [hempty]
        rfl
      · rw [cast_fields hempty hplain', hagain]
        rfl

/-- The role is dropped, the score becomes a list of lists, and both are under an operator. -/
theorem cast_unchanged_bands :
    let update : Value := .object [("role", .null), ("points", .string "1"), ("born", .null)]
    let result : Value := .object [("$set", .object
      [("points", .array [.array [.number (.integer 1 (by decide))]]), ("born", .null)])]
    hasConditions update = false ∧ cast bands {} update = .ok result ∧
      cast bands {} result = .ok result := by
  intro update result
  have hcast : cast bands {} update = .ok result := Except.eq_ok_of_toOption (by decide +kernel)
  exact ⟨by decide, hcast, cast_unchanged bands_hasBuiltinRules {} (by decide) hcast⟩

end Update

end TypedDocs
