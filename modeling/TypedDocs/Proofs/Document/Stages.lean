import TypedDocs.Proofs.Document.Idempotence
import TypedDocs.Proofs.Document.Policies

/-!
# Structure first, leaves later

One walk puts the structure of a document in order and converts its leaves. Two walks do the
same, of which the first leaves the leaves alone; and once leaves have been converted, a walk
of the structure has nothing left to do. Both are instances of one induction over the value:
two walks one after the other are set beside the whole walk, and only at the leaves is there
anything to compare. The index is any index, except where the errors are told apart by kind.
-/

namespace TypedDocs

/-- Whether an error is about the shape of a value and not about a conversion. -/
def CastError.isShapeMismatch : CastError → Bool
  | .shapeMismatch _ _ => true
  | _ => false

namespace Walker

/-- A walk that goes on after a failure, with or without conversion. -/
def stage (index : Index) (convert : Bool) : Walker := ⟨index, convert, .accumulate⟩

end Walker

open Walker

/-- Two walks one after the other, and how the failures of the second are to compare with those of
the whole walk. They are compared part by part, down to the leaves. -/
structure Staging (index : Index) where
  first : Bool
  second : Bool
  compare : List Failure → List Failure → Prop
  nil : compare [] []
  append : ∀ {fails whole more rest}, compare fails whole → compare more rest →
    compare (fails ++ more) (whole ++ rest)
  shape : ∀ (path : String) (v : Value),
    compare [(path, .ofShape v objectName)] [(path, .ofShape v objectName)]
  leaf : ∀ {t : ScalarType} {p : FieldPath} (v : Value), index.lookup p.schema = .scalar t →
    ((stage index second).leaf t p ((stage index first).leaf t p v).value).value =
        ((stage index true).leaf t p v).value ∧
      compare ((stage index second).leaf t p ((stage index first).leaf t p v).value).failures
        ((stage index true).leaf t p v).failures

namespace Staging

variable {index : Index} {s : Staging index}

/-- The second walk, of what the first one left, ends where the whole walk ends. -/
structure Holds {α : Type} (s : Staging index) (walk : Walker → α → Walked α) (v : α) : Prop where
  value : (walk (stage index s.second) (walk (stage index s.first) v).value).value =
    (walk (stage index true) v).value
  failures :
    s.compare (walk (stage index s.second) (walk (stage index s.first) v).value).failures
      (walk (stage index true) v).failures

variable {α β : Type} {walk : Walker → α → Walked α} {walk' : Walker → β → Walked β} {v : α}

/-- All walks keep the value and report the same, and what they report compares with itself. -/
theorem Holds.of_same {r : List Failure} (h : ∀ convert, walk (stage index convert) v = ⟨v, r⟩)
    (hr : s.compare r r) : s.Holds walk v where
  value := by rw [h, h, h]
  failures := by rw [h, h, h]; exact hr

/-- Walks of something built around a part are compared as the walks of the part are. -/
theorem Holds.map (h : s.Holds walk v) {f : α → β} {v' : β}
    (hv : ∀ convert, walk' (stage index convert) v' = (walk (stage index convert) v).map f)
    (hu : ∀ u, walk' (stage index s.second) (f u) = (walk (stage index s.second) u).map f) :
    s.Holds walk' v' := by
  have hsecond : walk' (stage index s.second) (walk' (stage index s.first) v').value =
      (walk (stage index s.second) (walk (stage index s.first) v).value).map f := by
    rw [hv, Walked.map_value, hu]
  refine ⟨?_, ?_⟩
  · rw [hsecond, hv, Walked.map_value, Walked.map_value, h.value]
  · rw [hsecond, hv]
    exact h.failures

section Steps

variable {p : FieldPath} {x v : Value}

/-- A leaf is the one place where there is something to compare. -/
theorem field_at_rest (hi : index.demand p ≠ .items) (ho : index.demand p ≠ .object) :
    s.Holds (fun w => w.field p) v := by
  cases hd : index.demand p with
  | items => exact absurd hd hi
  | object => exact absurd hd ho
  | nothing => exact .of_same (fun convert => field_nothing (w := stage index convert) hd) s.nil
  | scalar t =>
    have hfield : ∀ convert u, (stage index convert).field p u = (stage index convert).leaf t p u :=
      fun convert u => field_scalar (w := stage index convert) hd
    have hleaf := s.leaf v (Index.demand_eq_scalar_iff.1 hd)
    refine ⟨?_, ?_⟩
    · rw [hfield, hfield, hfield]
      exact hleaf.1
    · rw [hfield, hfield, hfield]
      exact hleaf.2

theorem items_cons {i : Nat} {xs : List Value}
    (hx : s.Holds (fun w => w.field (p.child (.index i))) x)
    (hxs : s.Holds (fun w => w.items p (i + 1)) xs) :
    s.Holds (fun w => w.items p i) (x :: xs) := by
  have hcons : ∀ convert y ys, (stage index convert).items p i (y :: ys) = _ := fun convert y ys =>
    Walker.items_cons (w := stage index convert) (stops_of_accumulate rfl)
  refine ⟨?_, ?_⟩
  · rw [hcons, hcons, hcons]
    exact congrArg₂ List.cons hx.value hxs.value
  · rw [hcons, hcons, hcons]
    exact s.append hx.failures hxs.failures

variable {key : String} {fs : Fields}

theorem fields_cons (hkeep : index.keepsField p.schema key x = true)
    (hx : s.Holds (fun w => w.field (p.child (.key key))) x)
    (hfs : s.Holds (fun w => w.fields p) fs) : s.Holds (fun w => w.fields p) ((key, x) :: fs) := by
  have hcons : ∀ convert y gs, index.keepsField p.schema key y = true →
      (stage index convert).fields p ((key, y) :: gs) = _ := fun convert y gs hy =>
    Walker.fields_cons (w := stage index convert) hy (stops_of_accumulate rfl)
  -- The first walk makes no field null that the second one would then drop.
  have hkeepAgain := keepsField_field (w := stage index s.first) hkeep
  refine ⟨?_, ?_⟩
  · rw [hcons s.first x fs hkeep, hcons s.second _ _ hkeepAgain, hcons true x fs hkeep]
    exact congrArg₂ (fun y gs => (key, y) :: gs) hx.value hfs.value
  · rw [hcons s.first x fs hkeep, hcons s.second _ _ hkeepAgain, hcons true x fs hkeep]
    exact s.append hx.failures hfs.failures

theorem fields_dropped (hkeep : index.keepsField p.schema key x = false)
    (hfs : s.Holds (fun w => w.fields p) fs) : s.Holds (fun w => w.fields p) ((key, x) :: fs) := by
  have hdropped : ∀ convert, (stage index convert).fields p ((key, x) :: fs) =
      (stage index convert).fields p fs :=
    fun convert => fields_cons_dropped (w := stage index convert) hkeep
  refine ⟨?_, ?_⟩
  · rw [hdropped, hdropped]
    exact hfs.value
  · rw [hdropped, hdropped]
    exact hfs.failures

end Steps

/-- Everywhere the two walks end where the whole walk ends. -/
theorem holds (s : Staging index) :
    Cases index (fun v p => s.Holds (fun w => w.field p) v)
      (fun xs p i => s.Holds (fun w => w.items p i) xs)
      (fun fs p => s.Holds (fun w => w.fields p) fs) where
  null _ := .of_same (fun _ => rfl) s.nil
  array hd h := h.map (fun convert => field_items (w := stage index convert) hd)
    fun _ => field_items (w := stage index s.second) hd
  promoted hd hnull harray h :=
    h.map (fun convert => field_promoted (w := stage index convert) hd hnull harray)
      fun _ => field_singleton (w := stage index s.second) hd
  object hd h := h.map (fun convert => field_object (w := stage index convert) hd rfl)
    fun _ => field_object (w := stage index s.second) hd rfl
  misshapen hd hnull hobject :=
    .of_same (fun convert => field_misshapen (w := stage index convert) hd hnull hobject)
      (s.shape _ _)
  atom hi ho _ := field_at_rest hi ho
  noItems _ _ := .of_same (fun _ => rfl) s.nil
  item hx hxs := items_cons hx hxs
  noFields _ := .of_same (fun _ => rfl) s.nil
  kept hkeep hx hfs := fields_cons hkeep hx hfs
  dropped hkeep hfs := fields_dropped hkeep hfs

/-- A whole document, which has to be an object. -/
theorem object_holds (s : Staging index) (p : FieldPath) (d : Value) :
    s.Holds (fun w => w.object p) d := by
  cases d with
  | object fs => exact (s.holds.fields fs p).map (fun _ => rfl) fun _ => rfl
  | _ => exact .of_same (fun _ => rfl) (s.shape _ _)

section Instances

variable (index)

/-- The structure is put in order, then the leaves are converted. -/
def structureFirst : Staging index where
  first := false
  second := true
  compare := Eq
  nil := rfl
  append h h' := congrArg₂ _ h h'
  shape _ _ := rfl
  leaf _ _ := ⟨rfl, rfl⟩

/-- All is cast, then the structure is put in order once more. -/
def structureAgain : Staging index where
  first := true
  second := false
  compare _ _ := True
  nil := trivial
  append _ _ := trivial
  shape _ _ := trivial
  leaf _ _ := ⟨rfl, trivial⟩

variable {index}

/-- A walk of the structure meets the failures of shape only, since conversions have others. -/
def shapesAgain (hrules : index.HasBuiltinRules) : Staging index where
  first := true
  second := false
  compare again whole := again = whole.filter (·.2.isShapeMismatch)
  nil := rfl
  append h h' := by rw [List.filter_append, h, h']
  shape _ _ := rfl
  leaf {t p} v hl := by
    refine ⟨rfl, ?_⟩
    cases hv : t.coerce v with
    | ok u => simp [stage, Walker.leaf, hv, Walked.clean]
    | error e =>
      have he := (hrules.lawful hl).error_of_coerce hv
      simp [stage, Walker.leaf, hv, Walked.clean, Walked.failed, he, CastError.ofType,
        CastError.isShapeMismatch]

end Instances

end Staging

namespace Document

variable {index : Index} {location : String} {d : Value}

/-- Once all is cast, a walk of the structure meets again what was amiss with a shape. -/
theorem failures_walk_again (hrules : index.HasBuiltinRules) :
    (walk index { coerce := false, location } (walk index { location } d).value).failures =
      (walk index { location } d).failures.filter (·.2.isShapeMismatch) :=
  (Staging.object_holds (Staging.shapesAgain hrules) (FieldPath.parse location) d).failures

theorem error?_cast_again (hrules : index.HasBuiltinRules)
    (hnodup : ((walk index { location } d).failures.map Prod.fst).Nodup) (path : String) :
    (cast index { coerce := false, location } (cast index { location } d).value).error? path =
      ((cast index { location } d).error? path).filter CastError.isShapeMismatch := by
  have hagain : ((walk index { coerce := false, location }
      (walk index { location } d).value).failures.map Prod.fst).Nodup := by
    rw [failures_walk_again hrules]
    exact hnodup.sublist (List.filter_sublist.map _)
  have hvalue : (cast index { location } d).value = (walk index { location } d).value := rfl
  ext e
  rw [hvalue, Option.filter_eq_some_iff, error?_eq_some_iff hagain, error?_eq_some_iff hnodup,
    failures_walk_again hrules, List.mem_filter]

/-- A full cast is a cast of the leaves after a cast of the structure. What it returns is in order,
so that a cast of its structure changes nothing and reports its errors of shape and no other. -/
theorem cast_in_stages (index : Index) (location : String) (d : Value) :
    let structural : DocumentOptions := { policy := .accumulate, coerce := false, location }
    let options : DocumentOptions := { policy := .accumulate, coerce := true, location }
    let full := cast index options d
    let again := cast index structural full.value
    cast index options (cast index structural d).value = full ∧
    again.value = full.value ∧
    ∀ (registry : Registry) (compileOptions : CompileOptions) (definition : Value),
      registry.HasBuiltinRules → Definition.compile registry compileOptions definition = .ok index →
      d.hasDistinctNames = true → d.hasUndottedNames = true →
      ∀ path, again.error? path = (full.error? path).filter CastError.isShapeMismatch := by
  intro structural options full again
  have hfirst :=
    Staging.object_holds (Staging.structureFirst index) (FieldPath.parse location) d
  have hagain :=
    Staging.object_holds (Staging.structureAgain index) (FieldPath.parse location) d
  refine ⟨?_, hagain.value, ?_⟩
  · have hvalue : (walk index options (walk index structural d).value).value =
        (walk index options d).value := hfirst.value
    have hfailures : (walk index options (walk index structural d).value).failures =
        (walk index options d).failures := hfirst.failures
    have hinner : (cast index structural d).value = (walk index structural d).value := rfl
    rw [hinner, cast, hvalue, hfailures]
    rfl
  · intro registry compileOptions definition hregistry hcompile hdistinct hundotted path
    have hrules := Definition.hasBuiltinRules_of_compile hregistry hcompile
    have hnames := Definition.hasNoEmptyName_of_compile hcompile
    exact error?_cast_again hrules (walk_owned hnames hdistinct hundotted).nodup path

/-- A member that is no object is reported again, a year that is no number is not. -/
theorem cast_in_stages_bands :
    let d : Value := .object [("role", .null), ("points", .string "1"),
      ("members", .array [.string "Axl Rose"]), ("born", .string "soon")]
    let full := cast bands {} d
    let again := cast bands { coerce := false } full.value
    (full.error? "members.0").isSome = true ∧ (full.error? "born").isSome = true ∧
      again.error? "members.0" = full.error? "members.0" ∧ again.error? "born" = none := by
  intro d full again
  have hagain := (cast_in_stages bands "" d).2.2 Registry.builtin {} Definition.bands
    Registry.builtin_hasBuiltinRules compile_bands (by decide) (by decide)
  have hmember := hagain "members.0"
  have hborn := hagain "born"
  refine ⟨by decide +kernel, by decide +kernel, hmember.trans ?_, hborn.trans ?_⟩
  · decide +kernel
  · decide +kernel

end Document

end TypedDocs
