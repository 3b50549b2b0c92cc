import TypedDocs.Proofs.Document.Conformance
import TypedDocs.Proofs.Document.FirstFailure
import TypedDocs.Proofs.Json.Names
import TypedDocs.Proofs.Schema.Segments

/-!
# Where the failures of a walk are

A failure has the instance key of its location, which lies at or below that of the walk.
If no name of the value is used twice in one object or holds a point, and no declared
name is empty, different failures have different keys. Either policy will do.
-/

namespace TypedDocs

section Keys

theorem undotted_toString (n : Nat) : '.' ∉ (toString n).toList := by
  intro hmem
  rw [Nat.toString_eq_ofList_toDigits, String.toList_ofList] at hmem
  have hdigit := Nat.isDigit_of_mem_toDigits (by decide) (by decide) hmem
  exact absurd hdigit (by decide)

theorem toString_ne_empty (n : Nat) : toString n ≠ "" := by
  rw [Nat.toString_eq_repr]
  exact Nat.repr_ne_empty

theorem toString_inj {m n : Nat} (h : toString m = toString n) : m = n := by
  have hdigits := congrArg (fun s => Nat.ofDigitChars 10 s.toList 0) h
  simpa [Nat.toString_eq_ofList_toDigits] using hdigits

/-- A key at or below another one. -/
def LiesBelow (base path : String) : Prop := keySegments base <+: keySegments path

theorem liesBelow_self (path : String) : LiesBelow path path := List.prefix_rfl

theorem LiesBelow.up {base s path : String} (hs : '.' ∉ s.toList) (hne : s ≠ "")
    (h : LiesBelow (join base s) path) : LiesBelow base path := by
  unfold LiesBelow at h ⊢
  rw [keySegments_join hs hne] at h
  exact (List.prefix_append _ _).trans h

/-- No key lies below two different segments of one base. -/
theorem LiesBelow.segment_unique {base s t path : String} (hs : '.' ∉ s.toList) (hs' : s ≠ "")
    (ht : '.' ∉ t.toList) (ht' : t ≠ "") (h : LiesBelow (join base s) path)
    (h' : LiesBelow (join base t) path) : s = t := by
  unfold LiesBelow at h h'
  rw [keySegments_join hs hs'] at h
  rw [keySegments_join ht ht'] at h'
  have hlength : (keySegments base ++ [s]).length = (keySegments base ++ [t]).length := by simp
  have heq := (List.prefix_of_prefix_length_le h h' (Nat.le_of_eq hlength)).eq_of_length hlength
  exact List.singleton_inj.1 (List.append_cancel_left heq)

end Keys

/-- The failures are at different keys, all of them inside a scope. -/
structure Owned (scope : String → Prop) (failures : List Failure) : Prop where
  nodup : (failures.map Prod.fst).Nodup
  inside : ∀ f ∈ failures, scope f.1

namespace Owned

variable {scope left right : String → Prop} {fails more : List Failure}

theorem nil : Owned scope [] where
  nodup := List.nodup_nil
  inside _ hf := absurd hf List.not_mem_nil

theorem mono (h : Owned left fails) (hscope : ∀ path, left path → right path) :
    Owned right fails where
  nodup := h.nodup
  inside f hf := hscope f.1 (h.inside f hf)

theorem append (h : Owned left fails) (h' : Owned right more)
    (hapart : ∀ path, left path → ¬ right path) (hleft : ∀ path, left path → scope path)
    (hright : ∀ path, right path → scope path) : Owned scope (fails ++ more) where
  nodup := by
    rw [List.map_append, List.nodup_append]
    refine ⟨h.nodup, h'.nodup, fun path hpath other hother heq => ?_⟩
    obtain ⟨f, hf, rfl⟩ := List.mem_map.1 hpath
    obtain ⟨g, hg, rfl⟩ := List.mem_map.1 hother
    exact hapart f.1 (h.inside f hf) (heq ▸ h'.inside g hg)
  inside f hf := by
    rcases List.mem_append.1 hf with hf | hf
    · exact hleft f.1 (h.inside f hf)
    · exact hright f.1 (h'.inside f hf)

theorem of_short (hshort : fails.length ≤ 1) (hinside : ∀ f ∈ fails, scope f.1) :
    Owned scope fails where
  nodup := by
    match fails, hshort with
    | [], _ => exact List.nodup_nil
    | [f], _ => simp
  inside := hinside

end Owned

/-- Below one of some fields whose names are segments. -/
def UnderFields (base : String) (fs : Fields) (path : String) : Prop :=
  ∃ f ∈ fs, f.1 ≠ "" ∧ '.' ∉ f.1.toList ∧ LiesBelow (join base f.1) path

/-- Below an item of an array, counted from some index on. -/
def UnderItems (base : String) (i : Nat) (path : String) : Prop :=
  ∃ j, i ≤ j ∧ LiesBelow (join base (toString j)) path

theorem UnderItems.up {base path : String} {i : Nat} (h : UnderItems base i path) :
    LiesBelow base path := by
  obtain ⟨j, -, hpath⟩ := h
  exact hpath.up (undotted_toString j) (toString_ne_empty j)

theorem UnderItems.not_first {base path : String} {i : Nat}
    (h : LiesBelow (join base (toString i)) path) : ¬ UnderItems base (i + 1) path := by
  rintro ⟨j, hj, hpath⟩
  have heq := h.segment_unique (undotted_toString i) (toString_ne_empty i)
    (undotted_toString j) (toString_ne_empty j) hpath
  have := toString_inj heq
  omega

theorem UnderFields.up {base path : String} {fs : Fields} (h : UnderFields base fs path) :
    LiesBelow base path := by
  obtain ⟨f, -, hne, hundotted, hpath⟩ := h
  exact hpath.up hundotted hne

theorem UnderFields.cons {base path : String} {fs : Fields} {first : String × Value}
    (h : UnderFields base fs path) : UnderFields base (first :: fs) path := by
  obtain ⟨f, hf, hpath⟩ := h
  exact ⟨f, List.mem_cons_of_mem _ hf, hpath⟩

theorem UnderFields.not_first {base key path : String} {fs : Fields} (hne : key ≠ "")
    (hundotted : '.' ∉ key.toList) (hkey : key ∉ fs.map Prod.fst)
    (h : LiesBelow (join base key) path) : ¬ UnderFields base fs path := by
  rintro ⟨f, hf, hne', hundotted', hpath⟩
  have heq := h.segment_unique hundotted hne hundotted' hne' hpath
  exact hkey (heq ▸ List.mem_map.2 ⟨f, hf, rfl⟩)

/-- No declared path ends in an empty name. -/
def Index.HasNoEmptyName (index : Index) : Prop := ∀ base, index.contains (join base "") = false

namespace Walker

variable {w : Walker} {p : FieldPath} {v : Value}

theorem ne_empty_of_keepsField (hnames : w.index.HasNoEmptyName) {key : String} {x : Value}
    (hkeep : w.index.keepsField p.schema key x = true) : key ≠ "" := by
  rintro rfl
  have hcontains := (keepsField_iff.1 hkeep).1
  rw [hnames p.schema] at hcontains
  cases hcontains

/-- What a walk of a location owns. -/
abbrev FieldOwned (w : Walker) (p : FieldPath) (v : Value) : Prop :=
  Owned (LiesBelow p.instanceKey) (w.field p v).failures

theorem atom_at : ∀ f ∈ (w.atom p v).failures, f.1 = p.instanceKey := by
  intro f hf
  unfold atom leaf at hf
  split at hf
  · exact congrArg Prod.fst (List.mem_singleton.1 hf)
  · split at hf
    · split at hf
      · cases hf
      · exact congrArg Prod.fst (List.mem_singleton.1 hf)
    · cases hf
  · cases hf

theorem atom_owned : Owned (LiesBelow p.instanceKey) (w.atom p v).failures :=
  .of_short atom_short fun f hf => atom_at f hf ▸ liesBelow_self _

theorem items_cons_owned {i : Nat} {x : Value} {xs : List Value}
    (hx : FieldOwned w (p.child (.index i)) x)
    (hxs : Owned (UnderItems p.instanceKey (i + 1)) (w.items p (i + 1) xs).failures) :
    Owned (UnderItems p.instanceKey i) (w.items p i (x :: xs)).failures := by
  have hhead : ∀ path, LiesBelow (join p.instanceKey (toString i)) path →
      UnderItems p.instanceKey i path := fun path hpath => ⟨i, Nat.le_refl i, hpath⟩
  cases hstops : w.stops (w.field (p.child (.index i)) x).failures with
  | true =>
    rw [items_cons_stopped hstops]
    exact hx.mono hhead
  | false =>
    rw [items_cons hstops]
    refine hx.append hxs (fun path hpath => UnderItems.not_first hpath) hhead ?_
    rintro path ⟨j, hj, hpath⟩
    exact ⟨j, by omega, hpath⟩

theorem fields_cons_owned (hnames : w.index.HasNoEmptyName) {key : String} {x : Value} {fs : Fields}
    (hkeep : w.index.keepsField p.schema key x = true) (hundotted : '.' ∉ key.toList)
    (hkey : key ∉ fs.map Prod.fst) (hx : FieldOwned w (p.child (.key key)) x)
    (hfs : Owned (UnderFields p.instanceKey fs) (w.fields p fs).failures) :
    Owned (UnderFields p.instanceKey ((key, x) :: fs)) (w.fields p ((key, x) :: fs)).failures := by
  have hne := ne_empty_of_keepsField hnames hkeep
  have hhead : ∀ path, LiesBelow (join p.instanceKey key) path →
      UnderFields p.instanceKey ((key, x) :: fs) path := fun path hpath =>
    ⟨(key, x), List.mem_cons_self, hne, hundotted, hpath⟩
  cases hstops : w.stops (w.field (p.child (.key key)) x).failures with
  | true =>
    rw [fields_cons_stopped hkeep hstops]
    exact hx.mono hhead
  | false =>
    rw [fields_cons hkeep hstops]
    exact hx.append hfs (fun path hpath => UnderFields.not_first hne hundotted hkey hpath)
      hhead fun path hpath => hpath.cons

/-- What a walk reports is at different keys below that of its location. -/
theorem owned (hnames : w.index.HasNoEmptyName) :
    Cases w.index
      (fun v p => v.hasDistinctNames = true → v.hasUndottedNames = true → FieldOwned w p v)
      (fun xs p i => (Value.array xs).hasDistinctNames = true →
        (Value.array xs).hasUndottedNames = true →
        Owned (UnderItems p.instanceKey i) (w.items p i xs).failures)
      (fun fs p => (Value.object fs).hasDistinctNames = true →
        (Value.object fs).hasUndottedNames = true →
        Owned (UnderFields p.instanceKey fs) (w.fields p fs).failures) where
  null _ _ _ := .nil
  array hd h hdistinct hundotted := by
    rw [FieldOwned, field_items hd]
    exact (h hdistinct hundotted).mono fun path => UnderItems.up
  promoted hd hnull harray h hdistinct hundotted := by
    rw [FieldOwned, field_promoted hd hnull harray]
    exact (h hdistinct hundotted).mono fun path hpath =>
      hpath.up (undotted_toString 0) (toString_ne_empty 0)
  object {fs p} hd h hdistinct hundotted := by
    have hobject : w.field p (.object fs) = (w.fields p fs).map .object := field_object hd rfl
    rw [FieldOwned, hobject]
    exact (h hdistinct hundotted).mono fun path => UnderFields.up
  misshapen hd hnull hobject _ _ := by
    rw [FieldOwned, field_misshapen hd hnull hobject]
    exact .of_short (Nat.le_refl 1) fun f hf => List.mem_singleton.1 hf ▸ liesBelow_self _
  atom hi ho _ _ _ := by
    rw [FieldOwned, field_eq_atom hi ho]
    exact atom_owned
  noItems _ _ _ _ := .nil
  item hx hxs hdistinct hundotted := by
    simp only [Value.hasDistinctNames, Value.hasUndottedNames, Value.everyObject,
      Value.everyObjectOfItems, Bool.and_eq_true] at hdistinct hundotted
    exact items_cons_owned (hx hdistinct.1 hundotted.1) (hxs hdistinct.2 hundotted.2)
  noFields _ _ _ := .nil
  kept {key x fs p} hkeep hx hfs hdistinct hundotted := by
    obtain ⟨hkey, hvalue, hrest⟩ := Value.distinct_cons hdistinct
    obtain ⟨hpoint, hvalue', hrest'⟩ := Value.undotted_cons hundotted
    exact fields_cons_owned hnames hkeep hpoint hkey (hx hvalue hvalue') (hfs hrest hrest')
  dropped hkeep hfs hdistinct hundotted := by
    obtain ⟨-, -, hrest⟩ := Value.distinct_cons hdistinct
    obtain ⟨-, -, hrest'⟩ := Value.undotted_cons hundotted
    rw [fields_cons_dropped hkeep]
    exact (hfs hrest hrest').mono fun path hpath => hpath.cons

end Walker

namespace Document

variable {index : Index} {options : DocumentOptions} {d : Value}

theorem walk_owned (hnames : index.HasNoEmptyName) (hdistinct : d.hasDistinctNames = true)
    (hundotted : d.hasUndottedNames = true) :
    Owned (LiesBelow (FieldPath.parse options.location).instanceKey)
      (walk index options d).failures := by
  cases d with
  | object fs =>
    have hfields := (Walker.owned (w := ⟨index, options.coerce, options.policy⟩) hnames).fields fs
      (FieldPath.parse options.location) hdistinct hundotted
    exact hfields.mono fun path => UnderFields.up
  | _ =>
    refine .of_short (Nat.le_refl 1) fun f hf => ?_
    rw [List.mem_singleton.1 hf]
    exact liesBelow_self _

/-- Failures at different keys are all recorded. -/
theorem error?_of_mem (hnodup : ((walk index options d).failures.map Prod.fst).Nodup)
    {f : Failure} (hf : f ∈ (walk index options d).failures) :
    (cast index options d).error? f.1 = some f.2 := by
  rw [error?_cast]
  exact Dictionary.get?_insertAll_of_mem hnodup hf

theorem error?_eq_some_iff (hnodup : ((walk index options d).failures.map Prod.fst).Nodup)
    {path : String} {e : CastError} :
    (cast index options d).error? path = some e ↔ (path, e) ∈ (walk index options d).failures := by
  rw [error?_cast]
  exact Dictionary.get?_ofList_eq_some_iff hnodup

end Document

end TypedDocs
