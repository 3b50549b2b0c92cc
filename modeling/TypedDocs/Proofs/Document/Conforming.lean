import TypedDocs.Proofs.Document.Conformance
import TypedDocs.Proofs.Document.FirstFailure

/-!
# Values that conform to a schema key

What a schema key asks of a whole value is said here without a walk. A walk in which
nothing fails leaves a value that conforms to the key it was walked at. The one exception
is an item that is null in place of an object: walks leave it alone, and whether it counts
as conforming is left open by a flag.
-/

namespace TypedDocs

open Location

/-- Values as a schema key asks for them. `nullItems` tells whether an item may be null. -/
inductive Conforms (index : Index) (nullItems : Bool) : String → Value → Prop
  | scalar {key : String} {t : ScalarType} {v : Value} : index.lookup key = .scalar t →
      t.accepts v = true → Conforms index nullItems key v
  | object {key : String} {fs : Fields} : index.lookup key = .object →
      (∀ f ∈ fs, index.contains (join key f.1) = true) →
      (∀ f ∈ fs, index.lookup (join key f.1) = .object → f.2 ≠ .null) →
      (∀ f ∈ fs, Conforms index nullItems (join key f.1) f.2) →
      Conforms index nullItems key (.object fs)
  | noItems {key : String} : index.hasTypedItems key = true → Conforms index nullItems key .null
  | items {key : String} {xs : List Value} : index.hasTypedItems key = true →
      (∀ x ∈ xs, (nullItems && x.isNull) = false →
        Conforms index nullItems (join key wildcard) x) →
      Conforms index nullItems key (.array xs)
  /-- Nothing is asked of the key: it is undeclared or untyped, or its items are. -/
  | unasked {key : String} {v : Value} : (index.lookup key).isTyped = false ∨
      (index.lookup key = .array ∧ (index.lookup (join key wildcard)).isTyped = false) →
      Conforms index nullItems key v

namespace Location

/-- Neither a location nor any below it is complained of or untidy. -/
def Sound (index : Index) (l : Location) : Prop :=
  ∀ m, Below index l m → m.complaint? index = none ∧ m.Tidy index

variable {index : Index} {l c : Location}

theorem Sound.here (h : l.Sound index) : l.complaint? index = none ∧ l.Tidy index :=
  h l (below_iff.2 (.inl rfl))

theorem Sound.step (h : l.Sound index) (hstep : Step index l c) : c.Sound index :=
  fun m hm => h m (below_iff.2 (.inr ⟨c, hstep, hm⟩))

theorem Audited.sound (h : Audited index {l} []) : l.Sound index := by
  intro m hm
  refine ⟨?_, h.tidy l rfl m hm⟩
  cases hc : m.complaint? index with
  | none => rfl
  | some e =>
    have hfailure : m.failure? index = some (m.path.instanceKey, e) := by simp [failure?, hc]
    have hmem := (h.failures_iff (m.path.instanceKey, e)).2 ⟨l, rfl, m, hm, hfailure⟩
    cases hmem

/-- Where an object is asked for and nothing is complained of, there is one, or an item is null. -/
theorem isObject_of_quiet (hd : l.demand index = .object) (hquiet : l.complaint? index = none)
    (hitem : l.site = .item → l.value.isNull = false) : l.value.isObject = true := by
  cases hobject : l.value.isObject with
  | true => rfl
  | false =>
    have hnot : ¬ (l.site = .item ∧ l.value.isNull = true) := by
      rintro ⟨hs, hn⟩
      simp [hitem hs] at hn
    simp [complaint?, hd, hobject, hnot] at hquiet

end Location

namespace Index

variable {index : Index} {p : FieldPath}

theorem unasked_of_demand_nothing (h : index.demand p = .nothing) :
    (index.lookup p.schema).isTyped = false ∨ (index.lookup p.schema = .array ∧
      (index.lookup (join p.schema wildcard)).isTyped = false) := by
  unfold demand at h
  cases hl : index.lookup p.schema with
  | array =>
    rw [hl] at h
    simp only [ite_eq_right_iff, reduceCtorEq, imp_false, Bool.not_eq_true] at h
    exact .inr ⟨rfl, h⟩
  | object => simp [hl] at h
  | scalar t => simp [hl] at h
  | _ => exact .inl rfl

end Index

/-- A location at or below which nothing is wrong holds a value that conforms, unless it is an item
that is null. -/
theorem conforms_of_sound {index : Index} (v : Value) (site : Site) (p : FieldPath)
    (hsite : site ≠ .document) (hsound : Location.Sound index ⟨site, p, v⟩)
    (hitem : site = .item → v.isNull = false) : Conforms index true p.schema v := by
  obtain ⟨hquiet, htidy⟩ := hsound.here
  have hdemand : Location.demand index ⟨site, p, v⟩ = index.demand p := demand_of_site hsite
  cases hd : index.demand p with
  | nothing => exact .unasked (Index.unasked_of_demand_nothing hd)
  | scalar t =>
    refine .scalar (Index.demand_eq_scalar_iff.1 hd) ?_
    simpa [complaint?, hdemand, hd] using hquiet
  | object =>
    have hobject := isObject_of_quiet (hdemand.trans hd) hquiet hitem
    cases hv : v with
    | object fs =>
      subst hv
      refine .object (Index.demand_eq_object_iff.1 hd) (htidy.declared (hdemand.trans hd) fs rfl)
        (htidy.no_null_object (hdemand.trans hd) fs rfl) fun f hf => ?_
      have hlt : sizeOf f.2 < sizeOf (Value.object fs) := sizeOf_lt_of_field hf
      have hstep : Step index ⟨site, p, .object fs⟩ ⟨.field, p.child (.key f.1), f.2⟩ :=
        .field (hdemand.trans hd) rfl hf
      exact conforms_of_sound f.2 .field _ (by simp) (hsound.step hstep) (by simp)
    | _ => simp [hv, Value.isObject] at hobject
  | items =>
    have htyped := Index.hasTypedItems_iff.2 hd
    rcases htidy.items (hdemand.trans hd) with hv | ⟨xs, hv⟩
    · have hnull : v = .null := hv
      subst hnull
      exact .noItems htyped
    · have harray : v = .array xs := hv
      subst harray
      refine .items htyped fun x hx hnull => ?_
      have hlt : sizeOf x < sizeOf (Value.array xs) := sizeOf_lt_of_item hx
      obtain ⟨i, hi⟩ := List.mem_iff_getElem?.1 hx
      have hstep : Step index ⟨site, p, .array xs⟩ ⟨.item, p.child (.index i), x⟩ :=
        .item (hdemand.trans hd) rfl hi
      exact conforms_of_sound x .item _ (by simp) (hsound.step hstep) fun _ => by simpa using hnull
termination_by sizeOf v

namespace Walker

variable {index : Index} {p : FieldPath} {site : Site} {v u : Value}

/-- A walk that succeeds leaves a location at or below which nothing is wrong. -/
theorem sound_of_field_ok (hb : index.HasBuiltinRules) (hsite : site ≠ .document)
    (hnull : v.isNull = true → site = .item ∨ index.demand p ≠ .object)
    (h : ((caster index .failFast).field p v).toExcept = .ok u) :
    Location.Sound index ⟨site, p, u⟩ := by
  have hfirst : StopsAtFirst ((thorough index).field p v) ((caster index .failFast).field p v) :=
    (stopsAtFirst (thorough index)).field v p
  have haudited := (audited hb).field v p site hsite hnull
  rw [hfirst.toExcept] at h
  obtain ⟨hclean, rfl⟩ := Walked.toExcept_eq_ok_iff.1 h
  rw [hclean] at haudited
  exact haudited.sound

/-- A walk that succeeds leaves a value that conforms to the key, where no null object was asked
for. -/
theorem conforms_of_field_ok (hb : index.HasBuiltinRules)
    (hnull : v.isNull = true → index.demand p ≠ .object)
    (h : ((caster index .failFast).field p v).toExcept = .ok u) :
    Conforms index true p.schema u :=
  conforms_of_sound u .field p (by simp)
    (sound_of_field_ok hb (by simp) (fun hv => .inr (hnull hv)) h) (by simp)

/-- The same of an item, which may be null. -/
theorem conforms_of_item_ok (hb : index.HasBuiltinRules)
    (h : ((caster index .failFast).field p v).toExcept = .ok u) (hu : u.isNull = false) :
    Conforms index true p.schema u :=
  conforms_of_sound u .item p (by simp)
    (sound_of_field_ok hb (by simp) (fun _ => .inl rfl) h) fun _ => hu

end Walker

end TypedDocs
