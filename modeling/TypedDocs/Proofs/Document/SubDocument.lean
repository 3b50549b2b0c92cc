import Mathlib.Data.List.Nodup
import TypedDocs.Proofs.Document.Change
import TypedDocs.Proofs.Document.Policies
import TypedDocs.Proofs.Document.Steps

/-!
# Casting a part of a document at its location

A part of a document can be cast by itself, with its instance key as the location. The walk
of the whole document comes to the part by the same path, so that it leaves there the value
that the other one returns, and what it reports at or below the key of the part is what the
other one reports. The part is an object, at a location that is declared as one.
-/

namespace TypedDocs

/-- A walk has the walk of a part in it: its value where the steps lead, and its failures at or
below the key of the part. -/
structure Walked.HasPart (whole : Walked Value) (steps : List Segment) (key : String)
    (part : Walked Value) : Prop where
  value : whole.value.at? steps = some part.value
  failures : ∀ f, f ∈ part.failures ↔ f ∈ whole.failures ∧ LiesBelow key f.1

theorem Walked.HasPart.trans {whole mid part : Walked Value} {s : Segment} {steps : List Segment}
    {key key' : String} (h : whole.HasPart [s] key mid) (h' : mid.HasPart steps key' part)
    (hbelow : ∀ path, LiesBelow key' path → LiesBelow key path) :
    whole.HasPart (s :: steps) key' part where
  value := by
    rw [Value.at?_cons, ← Value.at?_singleton, h.value, Option.bind_some, h'.value]
  failures f := by
    rw [h'.failures, h.failures, and_assoc]
    exact and_congr_right fun _ => and_iff_right_of_imp (hbelow f.1)

namespace Walker

variable {w : Walker} {p : FieldPath} {key : String} {x : Value} {fs : Fields}

theorem mem_failures_fields (hw : w.policy = .accumulate) {f : Failure} :
    f ∈ (w.fields p fs).failures ↔ ∃ g ∈ fs, w.index.keepsField p.schema g.1 g.2 = true ∧
      f ∈ (w.field (p.child (.key g.1)) g.2).failures := by
  induction fs with
  | nil => simp [fields, Walked.clean]
  | cons g fs ih =>
    obtain ⟨key, x⟩ := g
    simp only [List.mem_cons, exists_eq_or_imp, ← ih]
    cases hkeep : w.index.keepsField p.schema key x with
    | true =>
      rw [fields_cons hkeep (stops_of_accumulate hw), List.mem_append]
      simp
    | false =>
      rw [fields_cons_dropped hkeep]
      simp

theorem mem_failures_items (hw : w.policy = .accumulate) {i : Nat} {xs : List Value}
    {f : Failure} :
    f ∈ (w.items p i xs).failures ↔ ∃ n y, xs[n]? = some y ∧
      f ∈ (w.field (p.child (.index (i + n))) y).failures := by
  induction xs generalizing i with
  | nil => simp [items, Walked.clean]
  | cons x xs ih =>
    rw [items_cons (stops_of_accumulate hw), List.mem_append, ih]
    constructor
    · rintro (hx | ⟨n, y, hy, hf⟩)
      · exact ⟨0, x, rfl, hx⟩
      · refine ⟨n + 1, y, hy, ?_⟩
        rwa [show i + (n + 1) = i + 1 + n by omega]
    · rintro ⟨n, y, hy, hf⟩
      cases n with
      | zero =>
        cases hy
        exact .inl hf
      | succ n =>
        refine .inr ⟨n, y, hy, ?_⟩
        rwa [show i + 1 + n = i + (n + 1) by omega]

theorem get?_fields (hw : w.policy = .accumulate)
    (hkeep : w.index.keepsField p.schema key x = true) (hget : fs.get? key = some x) :
    Fields.get? (w.fields p fs).value key = some (w.field (p.child (.key key)) x).value := by
  induction fs with
  | nil => cases hget
  | cons g fs ih =>
    obtain ⟨k, y⟩ := g
    rw [Fields.get?] at hget
    by_cases heq : k = key
    · rw [if_pos heq] at hget
      cases hget
      subst heq
      rw [fields_cons hkeep (stops_of_accumulate hw)]
      exact if_pos rfl
    · rw [if_neg heq] at hget
      cases hy : w.index.keepsField p.schema k y with
      | true =>
        rw [fields_cons hy (stops_of_accumulate hw)]
        exact (if_neg heq).trans (ih hget)
      | false =>
        rw [fields_cons_dropped hy]
        exact ih hget

/-- A field that an object keeps is part of its walk. -/
theorem fields_hasPart (hw : w.policy = .accumulate) (hnames : w.index.HasNoEmptyName)
    (hdistinct : (Value.object fs).hasDistinctNames = true)
    (hundotted : (Value.object fs).hasUndottedNames = true)
    (hkeep : w.index.keepsField p.schema key x = true) (hget : fs.get? key = some x) :
    ((w.fields p fs).map .object).HasPart [.key key] (join p.instanceKey key)
      (w.field (p.child (.key key)) x) := by
  simp only [Value.hasDistinctNames, Value.hasUndottedNames, Value.everyObject, Fields.areUndotted,
    Bool.and_eq_true, List.all_eq_true] at hdistinct hundotted
  have howned : ∀ g ∈ fs, FieldOwned w (p.child (.key g.1)) g.2 := fun g hg =>
    (owned hnames).field g.2 _ (Value.everyObjectOfFields_iff.1 hdistinct.2 g hg)
      (Value.everyObjectOfFields_iff.1 hundotted.2 g hg)
  have hpoint : ∀ g ∈ fs, '.' ∉ g.1.toList := fun g hg => by simpa using hundotted.1 g hg
  have hmem := Fields.mem_of_get? hget
  refine ⟨Value.at?_singleton.trans (get?_fields hw hkeep hget), fun f => ?_⟩
  constructor
  · intro hf
    exact ⟨(mem_failures_fields hw).2 ⟨(key, x), hmem, hkeep, hf⟩, (howned _ hmem).inside f hf⟩
  · rintro ⟨hf, hbelow⟩
    -- A failure below the key of the field was met in this field and in no other.
    obtain ⟨g, hg, hkept, hf⟩ := (mem_failures_fields hw).1 hf
    have hname : g.1 = key := ((howned g hg).inside f hf).segment_unique (hpoint g hg)
      (ne_empty_of_keepsField hnames hkept) (hpoint _ hmem) (ne_empty_of_keepsField hnames hkeep)
      hbelow
    have hsame : g = (key, x) :=
      List.inj_on_of_nodup_map (of_decide_eq_true hdistinct.1) hg hmem hname
    rw [hsame] at hf
    exact hf

/-- An item is part of the walk of its array. -/
theorem items_hasPart (hw : w.policy = .accumulate) (hnames : w.index.HasNoEmptyName)
    {xs : List Value} (hdistinct : (Value.array xs).hasDistinctNames = true)
    (hundotted : (Value.array xs).hasUndottedNames = true) {n : Nat} (hget : xs[n]? = some x) :
    ((w.items p 0 xs).map .array).HasPart [.index n] (join p.instanceKey (toString n))
      (w.field (p.child (.index n)) x) := by
  have howned : ∀ m y, xs[m]? = some y → FieldOwned w (p.child (.index m)) y := fun m y hy =>
    (owned hnames).field y _
      (Value.everyObjectOfItems_iff.1 hdistinct y (List.mem_of_getElem? hy))
      (Value.everyObjectOfItems_iff.1 hundotted y (List.mem_of_getElem? hy))
  have hvalue : ((w.items p 0 xs).map Value.array).value.at? [.index n] =
      some (w.field (p.child (.index n)) x).value := by
    rw [Walked.map_value, items_value hw, Value.at?_singleton, Value.step?, List.getElem?_mapIdx,
      hget, Option.map_some, Nat.zero_add]
  refine ⟨hvalue, fun f => ?_⟩
  constructor
  · intro hf
    exact ⟨(mem_failures_items hw).2 ⟨n, x, hget, by rwa [Nat.zero_add]⟩,
      (howned n x hget).inside f hf⟩
  · rintro ⟨hf, hbelow⟩
    obtain ⟨m, y, hy, hf⟩ := (mem_failures_items hw).1 hf
    rw [Nat.zero_add] at hf
    have hindex : m = n := toString_inj <| ((howned m y hy).inside f hf).segment_unique
      (undotted_toString m) (toString_ne_empty m) (undotted_toString n) (toString_ne_empty n) hbelow
    subst hindex
    rw [hget] at hy
    cases hy
    exact hf

/-- The walk of a location has the walk of an object below it, if the index declares an object
there. -/
theorem field_hasPart (hw : w.policy = .accumulate) (hnames : w.index.HasNoEmptyName)
    {d : Declarations} (hbuild : Index.build d = .ok w.index) {steps : List Segment}
    (hs : ∀ s ∈ steps, s.IsPlain) {v : Value} (hp : p.schema ≠ "")
    (hdistinct : v.hasDistinctNames = true) (hundotted : v.hasUndottedNames = true)
    (hat : v.at? steps = some x) (hx : x.isObject = true)
    (hobject : w.index.lookup (p.follow steps).schema = .object) :
    (w.field p v).HasPart steps (p.follow steps).instanceKey (w.field (p.follow steps) x) := by
  -- The walk takes the first step itself, since the index asks for the container that the step
  -- goes through; from there the other steps are left.
  induction steps generalizing p v with
  | nil =>
    cases hat
    exact ⟨rfl, fun f => iff_self_and.2 (((owned hnames).field x p hdistinct hundotted).inside f)⟩
  | cons s steps ih =>
    have hs' : ∀ t ∈ steps, t.IsPlain := fun t ht => hs t (List.mem_cons_of_mem _ ht)
    have hchild : (p.child s).schema ≠ "" := join_base_ne_empty hp
    obtain ⟨y, hy, hrest⟩ := Option.bind_eq_some_iff.1 hat
    have hone : v.at? [s] = some y := Value.at?_singleton.trans hy
    have hpart := ih hs' hchild (Value.everyObject_of_at? hdistinct hone)
      (Value.everyObject_of_at? hundotted hone) hrest hobject
    have hbelow : ∀ path, LiesBelow (p.follow (s :: steps)).instanceKey path →
        LiesBelow (p.child s).instanceKey path :=
      fun path hpath => FieldPath.liesBelow_follow (p := p.child s) hs' hpath
    refine Walked.HasPart.trans ?_ hpart hbelow
    obtain ⟨hcontains, hlookup⟩ :=
      Index.lookup_of_follow hbuild hp hs (Index.contains_of_lookup hobject rfl)
    rcases Value.step?_cases hy with ⟨fs, name, rfl, rfl, hget⟩ | ⟨xs, n, rfl, rfl, hget⟩
    · have hname : name ≠ wildcard := by
        rintro rfl
        exact absurd (hs _ List.mem_cons_self).2.2 (by decide)
      have hdemand : w.index.demand p = .object :=
        Index.demand_eq_object_iff.2 (hlookup.trans (if_neg hname))
      have hkeep : w.index.keepsField p.schema name y = true :=
        keepsField_iff.2 ⟨hcontains, fun _ => Value.not_null_of_at? hrest hx⟩
      rw [field_object hdemand rfl]
      exact fields_hasPart hw hnames hdistinct hundotted hkeep hget
    · have harray : w.index.lookup p.schema = .array := hlookup
      have hitem : (w.index.lookup (join p.schema wildcard)).isTyped = true :=
        Index.isTyped_of_follow hbuild hchild hs' hobject
      have hdemand : w.index.demand p = .items := by
        rw [← Index.hasTypedItems_iff, Index.hasTypedItems, harray, hitem]
        rfl
      rw [field_items hdemand]
      exact items_hasPart hw hnames hdistinct hundotted hget

/-- The walk of a document has the walks of the objects in it. -/
theorem object_hasPart (hw : w.policy = .accumulate) {registry : Registry}
    {options : CompileOptions} {definition : Value}
    (hcompile : Definition.compile registry options definition = .ok w.index) {steps : List Segment}
    (hs : ∀ s ∈ steps, s.IsPlain) {v : Value} (hdistinct : v.hasDistinctNames = true)
    (hundotted : v.hasUndottedNames = true) (hat : v.at? steps = some x) (hx : x.isObject = true)
    (hobject : w.index.lookup (FieldPath.root.follow steps).schema = .object) :
    (w.object .root v).HasPart steps (FieldPath.root.follow steps).instanceKey
      (w.object (FieldPath.root.follow steps) x) := by
  have hnames := Definition.hasNoEmptyName_of_compile hcompile
  have hbuild := Definition.build_of_compile hcompile
  have hhere : x.at? [] = some x := rfl
  rw [← field_object (Index.demand_eq_object_iff.2 hobject) (Value.not_null_of_at? hhere hx)]
  cases steps with
  | nil => exact absurd rfl (Definition.ne_nil_of_follow hcompile hobject)
  | cons s steps =>
    have hs' : ∀ t ∈ steps, t.IsPlain := fun t ht => hs t (List.mem_cons_of_mem _ ht)
    have hchild : (FieldPath.root.child s).schema ≠ "" :=
      (hs s List.mem_cons_self).schema_nonempty
    obtain ⟨y, hy, hrest⟩ := Option.bind_eq_some_iff.1 hat
    have hone : v.at? [s] = some y := Value.at?_singleton.trans hy
    have hpart := field_hasPart hw hnames hbuild hs' hchild
      (Value.everyObject_of_at? hdistinct hone) (Value.everyObject_of_at? hundotted hone)
      hrest hx hobject
    refine Walked.HasPart.trans ?_ hpart fun path hpath =>
      FieldPath.liesBelow_follow (p := FieldPath.root.child s) hs' hpath
    have hcontains : w.index.contains (FieldPath.root.child s).schema = true :=
      Index.contains_of_isTyped (Index.isTyped_of_follow hbuild hchild hs' hobject)
    rcases Value.step?_cases hy with ⟨fs, name, rfl, rfl, hget⟩ | ⟨xs, n, rfl, rfl, -⟩
    · have hkeep : w.index.keepsField FieldPath.root.schema name y = true :=
        keepsField_iff.2 ⟨hcontains, fun _ => Value.not_null_of_at? hrest hx⟩
      exact fields_hasPart hw hnames hdistinct hundotted hkeep hget
    · -- There are no items at the root.
      have hitem : w.index.contains (join "" wildcard) = true := hcontains
      rw [Definition.not_contains_item hcompile (.inl rfl)] at hitem
      cases hitem

end Walker

namespace Document

/-- An object of a document is cast at its location as it is cast in the document. The location is
declared as an object, and reached by names that are neither empty nor positional. -/
theorem cast_part {registry : Registry} {compileOptions : CompileOptions} {definition : Value}
    {index : Index} (hcompile : Definition.compile registry compileOptions definition = .ok index)
    (coerce : Bool) {d v : Value} (hdistinct : d.hasDistinctNames = true)
    (hundotted : d.hasUndottedNames = true) {steps : List Segment}
    (hfirst : steps.head? ≠ some (.key ""))
    (hnames : ∀ name, .key name ∈ steps → isPositional name = false)
    (hat : d.at? steps = some v) (hv : v.isObject = true)
    (hobject : index.lookup (FieldPath.root.follow steps).schema = .object) :
    let location := (FieldPath.root.follow steps).instanceKey
    let whole := cast index { policy := .accumulate, coerce := coerce } d
    let part := cast index { policy := .accumulate, coerce := coerce, location := location } v
    whole.value.at? steps = some part.value ∧
    ∀ path e, part.error? path = some e ↔
      whole.error? path = some e ∧ (path = location ∨ ∃ rest, path = location ++ "." ++ rest) := by
  intro location whole part
  have hcontains := Index.contains_of_lookup hobject rfl
  have hplain := Definition.isPlain_of_declared hcompile hfirst
    (Value.undotted_of_at? hundotted hat) hnames hcontains
  have hne := Definition.ne_nil_of_follow hcompile hobject
  have hlocation : FieldPath.parse location = FieldPath.root.follow steps :=
    FieldPath.parse_follow rfl hplain
  have hwalk : walk index { policy := .accumulate, coerce := coerce, location := location } v =
      Walker.object ⟨index, coerce, .accumulate⟩ (FieldPath.root.follow steps) v :=
    congrArg (fun p => Walker.object ⟨index, coerce, .accumulate⟩ p v) hlocation
  have hpart := Walker.object_hasPart (w := ⟨index, coerce, .accumulate⟩) rfl hcompile hplain
    hdistinct hundotted hat hv hobject
  rw [← hwalk] at hpart
  refine ⟨hpart.value, fun path e => ?_⟩
  have hempty := Definition.hasNoEmptyName_of_compile hcompile
  have hdistinct' : v.hasDistinctNames = true := Value.everyObject_of_at? hdistinct hat
  have hundotted' : v.hasUndottedNames = true := Value.everyObject_of_at? hundotted hat
  rw [error?_eq_some_iff (walk_owned hempty hdistinct hundotted).nodup,
    error?_eq_some_iff (walk_owned hempty hdistinct' hundotted').nodup,
    ← liesBelow_iff (FieldPath.follow_instanceKey_ne_empty hne hplain)]
  exact hpart.failures (path, e)

/-- The second member, of whom the year is no number. The year of the band is not reported. -/
theorem cast_part_bands :
    let v : Value := .object [("first", .bool true), ("born", .string "soon")]
    let d : Value := .object [("born", .string "later"), ("members", .array [.null, v])]
    let whole := cast bands {} d
    let part := cast bands { location := "members.1" } v
    d.at? [.key "members", .index 1] = some v ∧
      whole.value.at? [.key "members", .index 1] = some part.value ∧
      part.error? "members.1.born" = whole.error? "members.1.born" ∧
      (part.error? "members.1.born").isSome = true ∧
      part.error? "born" = none ∧ (whole.error? "born").isSome = true := by
  intro v d whole part
  have hnames : ∀ name, Segment.key name ∈ [.key "members", .index 1] →
      isPositional name = false := by
    intro name hname
    obtain rfl : name = "members" := by simpa using hname
    decide
  have hat : d.at? [.key "members", .index 1] = some v := by decide
  have hpart := cast_part compile_bands true (by decide) (by decide) (by decide) hnames hat rfl rfl
  refine ⟨hat, hpart.1, ?_, by decide +kernel, by decide +kernel, by decide +kernel⟩
  ext e
  exact (hpart.2 "members.1.born" e).trans (and_iff_left (.inr ⟨"born", rfl⟩))

/-- An empty name at the root is in neither key of the location below it. The field is not
declared, and what it holds is lost in a cast of the whole. -/
theorem empty_name_dropped :
    let v : Value := .object [("first", .bool true)]
    let d : Value := .object [("", .object [("name", v)])]
    Definition.compile Registry.builtin {} Definition.bands = .ok bands ∧
      d.hasDistinctNames = true ∧ d.hasUndottedNames = true ∧
      isPositional "" = false ∧ isPositional "name" = false ∧
      d.at? [.key "", .key "name"] = some v ∧
      FieldPath.root.follow [.key "", .key "name"] = ⟨"name", "name"⟩ ∧
      bands.lookup "name" = .object ∧
      (cast bands { location := "name" } v).value = .object [("first", .string "true")] ∧
      (cast bands {} d).value.at? [.key "", .key "name"] = none := by
  refine ⟨compile_bands, by decide, by decide, by decide, by decide, by decide, by decide, rfl, ?_,
    ?_⟩
  · decide +kernel
  · decide +kernel

end Document

end TypedDocs
