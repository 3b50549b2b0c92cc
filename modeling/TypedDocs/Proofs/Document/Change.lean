import TypedDocs.Proofs.Document.Location
import TypedDocs.Proofs.Schema.Bands

/-!
# What a document cast changes

A location before a cast is set beside the same location after it. A cast that goes on
after a failure drops fields, wraps single values and converts leaves, each only where
the index asks for it; everything else is as it was. Nothing is assumed of the scalar
rules, and the index need not come from a definition.
-/

namespace TypedDocs

/-- What a scalar location holds in the end: the value itself if it has no conversion. -/
def ScalarType.settle (t : ScalarType) (convert : Bool) (v : Value) : Value :=
  if convert then (t.coerce v).toOption.getD v else v

/-- Declared, and not null where an object is declared. -/
def Index.stays (index : Index) (base : String) (f : String × Value) : Bool :=
  index.contains (join base f.1) &&
    !(f.2.isNull && index.lookup (join base f.1) matches .object)

theorem Index.keepsField_eq_stays {index : Index} {base : String} {f : String × Value} :
    index.keepsField base f.1 f.2 = index.stays base f := by
  have hcontains : index.contains (join base f.1) = true ↔ _ := index.contains_iff
  unfold keepsField stays
  cases hl : index.lookup (join base f.1) <;> simp_all [Lookup.isUndeclared]

structure Change where
  site : Site
  path : FieldPath
  before : Value
  after : Value

namespace Change

def demand (index : Index) (c : Change) : Demand :=
  Location.demand index ⟨c.site, c.path, c.before⟩

/-- From a location to a field it keeps, to an item, or to the item its single value becomes. -/
inductive Inside (index : Index) : Change → Change → Prop
  | field {c : Change} {fs gs : Fields} {i : Nat} {key : String} {x y : Value} :
      c.demand index = .object → c.before = .object fs → c.after = .object gs →
      (fs.filter (index.stays c.path.schema))[i]? = some (key, x) → gs[i]? = some (key, y) →
      Inside index c ⟨.field, c.path.child (.key key), x, y⟩
  | item {c : Change} {xs ys : List Value} {i : Nat} {x y : Value} :
      c.demand index = .items → c.before = .array xs → c.after = .array ys →
      xs[i]? = some x → ys[i]? = some y →
      Inside index c ⟨.item, c.path.child (.index i), x, y⟩
  | promoted {c : Change} {y : Value} :
      c.demand index = .items → c.before.isNull = false → c.before.isArray = false →
      c.after = .array [y] → Inside index c ⟨.item, c.path.child (.index 0), c.before, y⟩

/-- Nothing is changed at a location but what the index asks for there. -/
structure Faithful (index : Index) (convert : Bool) (c : Change) : Prop where
  names : c.demand index = .object → ∀ fs, c.before = .object fs →
    ∃ gs, c.after = .object gs ∧
      gs.map Prod.fst = (fs.filter (index.stays c.path.schema)).map Prod.fst
  misshapen : c.demand index = .object → c.before.isObject = false → c.after = c.before
  null : c.demand index = .items → c.before = .null → c.after = .null
  items : c.demand index = .items → ∀ xs, c.before = .array xs →
    ∃ ys, c.after = .array ys ∧ ys.length = xs.length
  single : c.demand index = .items → c.before.isNull = false → c.before.isArray = false →
    ∃ y, c.after = .array [y]
  leaf : ∀ t, c.demand index = .scalar t → c.after = t.settle convert c.before
  untouched : c.demand index = .nothing → c.after = c.before

end Change

namespace Walker

variable {w : Walker} {p : FieldPath} {site : Site} {v : Value}

/-- The fields that stay are cast one by one, in order. -/
theorem fields_value (hw : w.policy = .accumulate) (fs : Fields) :
    (w.fields p fs).value = (fs.filter (w.index.stays p.schema)).map fun f =>
      (f.1, (w.field (p.child (.key f.1)) f.2).value) := by
  induction fs with
  | nil => rfl
  | cons f fs ih =>
    have hstays : w.index.keepsField p.schema f.1 f.2 = w.index.stays p.schema f :=
      Index.keepsField_eq_stays
    obtain ⟨key, x⟩ := f
    cases hkeep : w.index.keepsField p.schema key x with
    | true =>
      rw [fields_cons hkeep (stops_of_accumulate hw), List.filter_cons_of_pos (hstays ▸ hkeep),
        List.map_cons, ih]
    | false =>
      have hdropped : ¬ w.index.stays p.schema (key, x) = true := by rw [← hstays, hkeep]; simp
      rw [fields_cons_dropped hkeep, List.filter_cons_of_neg hdropped, ih]

theorem items_value (hw : w.policy = .accumulate) (i : Nat) (xs : List Value) :
    (w.items p i xs).value =
      xs.mapIdx fun j x => (w.field (p.child (.index (i + j))) x).value := by
  induction xs generalizing i with
  | nil => rfl
  | cons x xs ih =>
    rw [items_cons (stops_of_accumulate hw), List.mapIdx_cons, ih]
    simp only [Nat.add_zero, Nat.add_assoc, Nat.add_comm 1]

theorem leaf_value {t : ScalarType} : (w.leaf t p v).value = t.settle w.coerce v := by
  unfold leaf ScalarType.settle
  cases w.coerce with
  | false => rfl
  | true =>
    cases h : t.coerce v with
    | ok u => simp [Walked.clean, Except.toOption]
    | error e => simp [Walked.failed, Except.toOption]

theorem object_value {fs : Fields} : (w.object p (.object fs)).value =
    .object (w.fields p fs).value := rfl

theorem object_misshapen (h : v.isObject = false) : (w.object p v).value = v := by
  cases v with
  | object fs => cases h
  | _ => rfl

/-- What a walk leaves at a location, which is an object's if it is a document's. -/
def leaves (w : Walker) (site : Site) (p : FieldPath) (v : Value) : Value :=
  match site with
  | .document => (w.object p v).value
  | .field | .item => (w.field p v).value

theorem leaves_of_site (hsite : site ≠ .document) : w.leaves site p v = (w.field p v).value := by
  cases site with
  | document => exact absurd rfl hsite
  | field => rfl
  | item => rfl

end Walker

namespace Change

open Walker

variable {index : Index} {w : Walker} {c c' : Change}

/-- What is there in the end is what a walk leaves. -/
def IsWalked (w : Walker) (c : Change) : Prop := c.after = w.leaves c.site c.path c.before

theorem site_ne_document (hd : c.demand index ≠ .object) : c.site ≠ .document := by
  intro hsite
  refine hd ?_
  rw [demand, Location.demand, hsite]

/-- Where no object is asked for, the walk is that of the value at its path. -/
theorem IsWalked.of_field (h : c.IsWalked w) (hd : c.demand w.index ≠ .object) :
    c.after = (w.field c.path c.before).value ∧ c.demand w.index = w.index.demand c.path := by
  have hsite := site_ne_document hd
  have hpath : c.demand w.index = w.index.demand c.path := Location.demand_of_site hsite
  rw [IsWalked, leaves_of_site hsite] at h
  exact ⟨h, hpath⟩

theorem IsWalked.of_object (h : c.IsWalked w) (hd : c.demand w.index = .object)
    (hnull : c.before.isNull = false) : c.after = (w.object c.path c.before).value := by
  rw [IsWalked] at h
  cases hsite : c.site with
  | document => rw [h, hsite]; rfl
  | _ =>
    have hfield : c.site ≠ .document := by simp [hsite]
    have hpath : w.index.demand c.path = .object := (Location.demand_of_site hfield).symm.trans hd
    rw [h, leaves_of_site hfield, field_object hpath hnull]

theorem IsWalked.of_null (h : c.IsWalked w) (hnull : c.before = .null) : c.after = .null := by
  rw [IsWalked, hnull] at h
  cases hsite : c.site <;> rw [h, hsite] <;> rfl

/-- A walk that goes on after failures leaves a location as the index asks. -/
theorem IsWalked.faithful (hw : w.policy = .accumulate) (h : c.IsWalked w) :
    c.Faithful w.index w.coerce where
  names hd fs hfs := by
    have hafter := h.of_object hd (by rw [hfs]; rfl)
    rw [hfs, object_value, fields_value hw] at hafter
    refine ⟨_, hafter, ?_⟩
    simp only [List.map_map]
    rfl
  misshapen hd hobject := by
    cases hnull : c.before.isNull with
    | true =>
      cases hv : c.before <;> simp_all [Value.isNull]
      exact h.of_null hv
    | false => rw [h.of_object hd hnull, object_misshapen hobject]
  null _ hnull := h.of_null hnull
  items hd xs hxs := by
    obtain ⟨hafter, hpath⟩ := h.of_field (by simp [hd])
    rw [hxs, field_items (hpath ▸ hd), Walked.map_value, items_value hw] at hafter
    exact ⟨_, hafter, List.length_mapIdx⟩
  single hd hnull harray := by
    obtain ⟨hafter, hpath⟩ := h.of_field (by simp [hd])
    rw [field_promoted (hpath ▸ hd) hnull harray] at hafter
    exact ⟨_, hafter⟩
  leaf t hd := by
    obtain ⟨hafter, hpath⟩ := h.of_field (by simp [hd])
    rw [hafter, field_scalar (hpath ▸ hd), leaf_value]
  untouched hd := by
    obtain ⟨hafter, hpath⟩ := h.of_field (by simp [hd])
    rw [hafter, field_nothing (hpath ▸ hd)]
    rfl

/-- What is inside a location that was walked was walked itself. -/
theorem IsWalked.inside (hw : w.policy = .accumulate) (h : c.IsWalked w)
    (hstep : Inside w.index c c') : c'.IsWalked w := by
  cases hstep with
  | @field fs gs i key x y hd hfs hgs hx hy =>
    have hafter := h.of_object hd (by rw [hfs]; rfl)
    rw [hfs, object_value, fields_value hw, hgs, Value.object.injEq] at hafter
    rw [hafter, List.getElem?_map, hx, Option.map_some, Option.some.injEq, Prod.mk.injEq] at hy
    exact hy.2.symm
  | @item xs ys i x y hd hxs hys hx hy =>
    obtain ⟨hafter, hpath⟩ := h.of_field (by simp [hd])
    rw [hxs, field_items (hpath ▸ hd), Walked.map_value, items_value hw, hys,
      Value.array.injEq] at hafter
    rw [hafter, List.getElem?_mapIdx, hx, Option.map_some, Option.some.injEq, Nat.zero_add] at hy
    exact hy.symm
  | @promoted y hd hnull harray hy =>
    obtain ⟨hafter, hpath⟩ := h.of_field (by simp [hd])
    rw [field_promoted (hpath ▸ hd) hnull harray, hy] at hafter
    simp only [Walked.map_value, Value.array.injEq, List.cons.injEq, and_true] at hafter
    exact hafter

theorem IsWalked.within (hw : w.policy = .accumulate) (h : c.IsWalked w)
    (hsteps : Relation.ReflTransGen (Inside w.index) c c') : c'.IsWalked w := by
  induction hsteps with
  | refl => exact h
  | tail _ hstep ih => exact ih.inside hw hstep

end Change

namespace Document

open Change

/-- A document and what a cast made of it. -/
def change (index : Index) (options : DocumentOptions) (d : Value) : Change :=
  ⟨.document, FieldPath.parse options.location, d, (cast index options d).value⟩

theorem change_isWalked (index : Index) (options : DocumentOptions) (d : Value) :
    (change index options d).IsWalked ⟨index, options.coerce, options.policy⟩ := rfl

/-- Every location of a document is left as the index asks and otherwise as it was. -/
theorem cast_faithful (index : Index) (location : String) (d : Value) (c : Change)
    (hc : Relation.ReflTransGen (Inside index) (change index { location } d) c) :
    c.Faithful index true := by
  have hwalked := change_isWalked index { location } d
  exact (hwalked.within rfl hc).faithful rfl

/-- A band whose members are a single text: the text is made the only member, and left as it was
although it is no object. -/
theorem cast_faithful_bands :
    let d : Value := .object [("role", .null), ("members", .string "Axl Rose")]
    let member : Change :=
      ⟨.item, ⟨"members.$", "members.0"⟩, .string "Axl Rose", .string "Axl Rose"⟩
    Relation.ReflTransGen (Inside bands) (change bands {} d) member ∧
      member.Faithful bands true := by
  intro d member
  let members : Change :=
    ⟨.field, ⟨"members", "members"⟩, .string "Axl Rose", .array [.string "Axl Rose"]⟩
  have hfield : Inside bands (change bands {} d) members :=
    @Inside.field bands (change bands {} d) [("role", .null), ("members", .string "Axl Rose")]
      [("members", .array [.string "Axl Rose"])] 0 "members" _ _ rfl rfl
      (by decide +kernel) (by decide +kernel) rfl
  have hitem : Inside bands members member := .promoted rfl rfl rfl rfl
  have hmember : Relation.ReflTransGen (Inside bands) (change bands {} d) member :=
    .tail (.single hfield) hitem
  exact ⟨hmember, cast_faithful bands "" d member hmember⟩

end Document

end TypedDocs
