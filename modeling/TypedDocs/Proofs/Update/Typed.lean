import Mathlib.Data.List.Forall2
import TypedDocs.Proofs.Document.Conforming
import TypedDocs.Proofs.Update.Nested

/-!
# A cast update is typed

A successful cast of an update in operator form keeps its operators and their order. Each
known operator leaves the declared keys of its operand, and under each key a value of the
kind that the operator asks for. The operands of unknown operators are not touched. About
the conditions under `$pull` it is only said that they stand under declared keys.
-/

namespace TypedDocs

namespace Update

/-- Operators that drop null objects, as a document cast does. -/
def dropsNullObjects : UpdateOperator → Bool
  | .fields | .pullAll => true
  | _ => false

/-- Whether what is appended is a list of items. -/
def listsItems : Value → Bool
  | .object modifiers => (Fields.get? modifiers eachKey).isSome
  | _ => false

section Entries

variable (index : Index) (nullItems : Bool)

/-- What is appended to the array at a location, before and after a cast. -/
inductive Appended (p : FieldPath) : Value → Value → Prop
  | one {v w : Value} : listsItems v = false →
      (w.isNull = false → Conforms index nullItems p.element.schema w) → Appended p v w
  | several {modifiers : Fields} {items : List Value} :
      listsItems (.object modifiers) = true →
      (∀ x ∈ items, x.isNull = false → Conforms index nullItems p.element.schema x) →
      Appended p (.object modifiers) (.object (Fields.assign modifiers eachKey (.array items)))

/-- The value under a key of an operand, before and after a cast. -/
def EntryTyped (category : UpdateOperator) (p : FieldPath) (before after : Value) : Prop :=
  match category with
  | .fields | .pullAll => Conforms index nullItems p.schema after
  | .append =>
    if (index.lookup p.schema).isArray then Appended index nullItems p before after
    else after = before
  | .pop => after.isNull = true ∨ after.isNumber = true
  | .pathsOnly => after = before
  | .pull | .unknown => True

/-- The operand of an operator, before and after a cast. -/
inductive OperandTyped (category : UpdateOperator) : Value → Value → Prop
  | unknown {v : Value} : category = .unknown → OperandTyped category v v
  | known {fs gs : Fields} : category ≠ .unknown →
      List.Forall₂ (fun f g => f.1 = g.1 ∧ index.contains (resolve index f.1).schema = true ∧
        EntryTyped index nullItems category (resolve index f.1) f.2 g.2)
        (prune index (dropsNullObjects category) fs) gs →
      OperandTyped category (.object fs) (.object gs)

end Entries

section Chains

variable {f : String → Value → Except CastError Value} {fs gs : Fields}

/-- What holds of the cast of each field holds of all fields that are cast one by one. -/
theorem forall₂_of_castEach {R : String × Value → Value → Prop}
    (hR : ∀ a ∈ fs, ∀ w, f a.1 a.2 = .ok w → R a w) (h : castEach f fs = .ok gs) :
    List.Forall₂ (fun a b => a.1 = b.1 ∧ R a b.2) fs gs := by
  induction fs generalizing gs with
  | nil =>
    cases h
    exact .nil
  | cons first fs ih =>
    obtain ⟨key, v⟩ := first
    rw [castEach_cons] at h
    obtain ⟨w, hw, h⟩ := Except.bind_eq_ok_iff.1 h
    obtain ⟨ws, hws, rfl⟩ := Except.map_eq_ok_iff.1 h
    exact .cons ⟨rfl, hR (key, v) List.mem_cons_self w hw⟩
      (ih (fun a ha => hR a (List.mem_cons_of_mem _ ha)) hws)

theorem castEach_ok : castEach (fun _ v => .ok v) fs = .ok fs := by
  induction fs with
  | nil => rfl
  | cons first fs ih => rw [castEach_cons, ih]; rfl

end Chains

section Operands

variable {index : Index} {category : UpdateOperator} {key : String} {v w : Value}
  {p : FieldPath}

/-- The cast of the value under one key of an operand. -/
def castEntry (index : Index) (category : UpdateOperator) (key : String) (v : Value) :
    Except CastError Value :=
  match category with
  | .fields | .pullAll => castField index (resolve index key) v
  | .append => castAppended index (resolve index key) v
  | .pull => (Reading.comparand (resolve index key)).cast index v
  | .pop => ScalarType.number.coerce v
  | .pathsOnly | .unknown => .ok v

/-- A known operator casts the entries that it keeps, one by one. -/
theorem castOperand_eq_castEach (hknown : category ≠ .unknown) {fs : Fields} :
    castOperand index category fs =
      castEach (castEntry index category) (prune index (dropsNullObjects category) fs) := by
  cases category with
  | pathsOnly => exact castEach_ok.symm
  | unknown => exact absurd rfl hknown
  | _ => rfl

theorem contains_of_keepsName {dropNullObjects : Bool}
    (h : keepsName index dropNullObjects key v = true) :
    index.contains (resolve index key).schema = true := by
  rw [Index.contains_iff]
  unfold keepsName at h
  cases hl : index.lookup (resolve index key).schema <;> simp_all [Lookup.isUndeclared]

theorem castAppended_elsewhere (h : (index.lookup p.schema).isArray = false) :
    castAppended index p v = .ok v := by
  unfold castAppended
  rw [if_neg (by simp [h])]

section Arrays

variable (harray : (index.lookup p.schema).isArray = true)
include harray

theorem castAppended_one (hone : listsItems v = false) :
    castAppended index p v = castField index p.element v := by
  cases v with
  | object modifiers =>
    have hnone : Fields.get? modifiers eachKey = none := by simpa [listsItems] using hone
    simp only [castAppended, harray, if_true, hnone]
  | _ => simp only [castAppended, harray, if_true]

theorem castAppended_several {modifiers : Fields} {items : Value}
    (hsome : Fields.get? modifiers eachKey = some items) :
    castAppended index p (.object modifiers) = (castItems index p.element items).map fun cast =>
      .object (Fields.assign modifiers eachKey cast) := by
  simp only [castAppended, harray, if_true, hsome]
  rfl

theorem appended_of_castAppended (hrules : index.HasBuiltinRules)
    (h : castAppended index p v = .ok w) : Appended index true p v w := by
  have hitem : ∀ x y, castField index p.element x = .ok y → y.isNull = false →
      Conforms index true p.element.schema y := fun x y hcast hy =>
    Walker.conforms_of_item_ok hrules hcast hy
  cases hone : listsItems v with
  | false =>
    rw [castAppended_one harray hone] at h
    exact .one hone (hitem v w h)
  | true =>
    cases v with
    | object modifiers =>
      obtain ⟨items, hsome⟩ := Option.isSome_iff_exists.1 hone
      rw [castAppended_several harray hsome] at h
      obtain ⟨cast, hcast, rfl⟩ := Except.map_eq_ok_iff.1 h
      obtain ⟨ys, hys, rfl⟩ := Except.map_eq_ok_iff.1 hcast
      refine .several hone fun y hy hnull => ?_
      obtain ⟨x, -, hx⟩ := Except.mem_of_mapM_ok hys hy
      exact hitem x y hx hnull
    | _ => cases hone

end Arrays

theorem entryTyped_of_castEntry (hrules : index.HasBuiltinRules)
    (hkeep : keepsName index (dropsNullObjects category) key v = true)
    (h : castEntry index category key v = .ok w) :
    EntryTyped index true category (resolve index key) v w := by
  have hfield (hdrops : dropsNullObjects category = true)
      (hcast : castField index (resolve index key) v = .ok w) :
      Conforms index true (resolve index key).schema w := by
    refine Walker.conforms_of_field_ok hrules (fun hnull hd => ?_) hcast
    rw [hdrops, keepsName, Index.demand_eq_object_iff.1 hd] at hkeep
    simp [hnull] at hkeep
  cases category with
  | fields => exact hfield rfl h
  | pullAll => exact hfield rfl h
  | append =>
    have hcast : castAppended index (resolve index key) v = .ok w := h
    cases harray : (index.lookup (resolve index key).schema).isArray with
    | true =>
      simp only [EntryTyped, harray, if_true]
      exact appended_of_castAppended harray hrules hcast
    | false =>
      simp only [EntryTyped, harray, Bool.false_eq_true, if_false]
      rw [castAppended_elsewhere harray] at hcast
      exact (Except.ok.inj hcast).symm
  | pop =>
    have haccepts := ScalarType.lawful_number.accepts_of_coerce h
    exact Bool.or_eq_true_iff.1 haccepts
  | pathsOnly => exact (Except.ok.inj h).symm
  | pull => trivial
  | unknown => trivial

theorem operandTyped_of_castOperator (hrules : index.HasBuiltinRules) {name : String}
    (h : castOperator index name v = .ok w) :
    OperandTyped index true (UpdateOperator.ofName name) v w := by
  unfold castOperator at h
  split at h
  · rename_i hunknown
    cases h
    exact .unknown hunknown
  · rename_i hknown
    obtain ⟨gs, hgs, rfl⟩ := Except.map_eq_ok_iff.1 h
    rw [castOperand_eq_castEach hknown] at hgs
    refine .known hknown (forall₂_of_castEach (R := fun f w => _ ∧ EntryTyped index true _ _ f.2 w)
      (fun f hf w hw => ?_) hgs)
    have hkeep := (List.mem_filter.1 hf).2
    exact ⟨contains_of_keepsName hkeep, entryTyped_of_castEntry hrules hkeep hw⟩
  · cases h

end Operands

/-- A successful cast of operators leaves the same operators, each with a typed operand. -/
theorem cast_typed {index : Index} (hrules : index.HasBuiltinRules) {options : UpdateOptions}
    {fields : Fields} (hops : ∀ f ∈ fields, isOperator f.1 = true) {result : Value}
    (h : cast index options (.object fields) = .ok result) :
    ∃ gs, result = .object gs ∧ List.Forall₂ (fun f g => f.1 = g.1 ∧
      OperandTyped index true (UpdateOperator.ofName f.1) f.2 g.2) fields gs := by
  rw [cast_operators hops] at h
  obtain ⟨gs, hgs, rfl⟩ := Except.map_eq_ok_iff.1 h
  exact ⟨gs, rfl, forall₂_of_castEach (R := fun f w => OperandTyped index true _ f.2 w)
    (fun f _ w hw => operandTyped_of_castOperator hrules hw) hgs⟩

/-- A text is appended to the points as a list of one point, the number to slice to is kept, and a
text to pop by is made a number. -/
theorem cast_typed_bands :
    let one : Value := .number (.integer 1 (by decide))
    let update : Fields :=
      [("$push", .object [("points", .object [("$each", .string "1"), ("$slice", .string "2")])]),
        ("$pop", .object [("tags", .string "1"), ("role", .null)])]
    let result : Fields :=
      [("$push", .object
          [("points", .object [("$each", .array [.array [one]]), ("$slice", .string "2")])]),
        ("$pop", .object [("tags", one)])]
    cast bands {} (.object update) = .ok (.object result) ∧
      List.Forall₂ (fun f g => f.1 = g.1 ∧
        OperandTyped bands true (UpdateOperator.ofName f.1) f.2 g.2) update result := by
  intro one update result
  have hcast : cast bands {} (.object update) = .ok (.object result) :=
    Except.eq_ok_of_toOption (by decide +kernel)
  obtain ⟨gs, heq, htyped⟩ := cast_typed bands_hasBuiltinRules (by decide) hcast
  cases heq
  exact ⟨hcast, htyped⟩

theorem not_conforms_null_member : ¬ Conforms bands false "members" (.array [.null]) := by
  have harray : bands.lookup "members" = .array := rfl
  have hitem : bands.lookup (join "members" wildcard) = .object := rfl
  intro h
  cases h with
  | scalar hl _ => rw [harray] at hl; cases hl
  | unasked hl => simp [harray, hitem, Lookup.isTyped] at hl
  | items _ hitems =>
    have hnull := hitems .null List.mem_cons_self rfl
    cases hnull with
    | scalar hl _ => rw [hitem] at hl; cases hl
    | noItems hl => simp [Index.hasTypedItems, hitem, Lookup.isArray] at hl
    | unasked hl => simp [hitem, Lookup.isTyped] at hl

/-- A member that is null is kept, although members are declared as objects. -/
theorem null_member_kept :
    let members : Value := .object [("members", .array [.null])]
    cast bands {} (.object [("$set", members)]) = .ok (.object [("$set", members)]) ∧
      ¬ OperandTyped bands false .fields members members := by
  intro members
  have hprune : prune bands true [("members", .array [.null])] = [("members", .array [.null])] := by
    decide +kernel
  refine ⟨Except.eq_ok_of_toOption (by decide +kernel), ?_⟩
  intro (h : OperandTyped bands false .fields (.object [("members", .array [.null])])
    (.object [("members", .array [.null])]))
  cases h with
  | unknown hunknown => cases hunknown
  | known _ hentries =>
    rw [dropsNullObjects, hprune] at hentries
    cases hentries with
    | cons hentry _ =>
      have hconforms : Conforms bands false (resolve bands "members").schema (.array [.null]) :=
        hentry.2.2
      have hpath : resolve bands "members" = FieldPath.root.child (.key "members") :=
        Index.resolve_name (by decide) (by decide) rfl
      rw [hpath] at hconforms
      exact not_conforms_null_member hconforms

end Update

end TypedDocs
