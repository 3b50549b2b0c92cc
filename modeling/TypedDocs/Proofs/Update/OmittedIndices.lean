import TypedDocs.Proofs.Document.SchemaKey
import TypedDocs.Proofs.Filter.SchemaKey
import TypedDocs.Proofs.Schema.ArrayLevels
import TypedDocs.Proofs.Update.Nested

/-!
# Keys that leave out indices

A name below arrays means the same field of their innermost items whether all, some or none of
the indices on the way are written. So the operand of a filter and the value of an update under
such a key are cast alike, whatever else stands beside them.
-/

namespace TypedDocs

section Filters

variable {index : Index} {key rest : String} {v : Value}

theorem isOperator_dotted (key rest : String) :
    isOperator (key ++ "." ++ rest) = isOperator key := by
  unfold isOperator
  cases hkey : key.toList with
  | nil => simp [hkey]
  | cons c cs => simp [hkey]

namespace Filter

/-- The operand of a member of a filter at the root. -/
def castMember (index : Index) (key : String) (v : Value) : Except CastError Value :=
  (Reading.ofCondition index .root key).cast index v

/-- The members of a filter are cast one after the other, as the entries of an update are. -/
theorem cast_eq_castEach (fs : Fields) :
    cast index (.object fs) = (Update.castEach (castMember index) fs).map .object := by
  have hfields : Reading.castFields index (Reading.ofCondition index .root) fs =
      Update.castEach (castMember index) fs := by
    induction fs with
    | nil => rfl
    | cons first fs ih =>
      obtain ⟨key, v⟩ := first
      rw [Reading.castFields_cons, ih]
      rfl
  rw [cast, hfields]

/-- The member under a dotted key that is written as an operator is left alone; under any other
dotted key it is the operand of the field that the key leads to. -/
theorem castMember_dotted : castMember index (key ++ "." ++ rest) v =
    if isOperator key then .ok v
    else (Reading.location (index.resolve .root (key ++ "." ++ rest))).cast index v := by
  have hoperator := isOperator_dotted key rest
  unfold castMember
  cases hkey : isOperator key with
  | false => rw [Reading.ofCondition_field (hoperator.trans hkey)]; rfl
  | true =>
    have hunknown : FilterOperator.ofName (key ++ "." ++ rest) = .unknown :=
      Decidable.byContradiction fun h => FilterOperator.undotted_of_name h (by simp)
    have hforeign : Reading.ofCondition index .root (key ++ "." ++ rest) =
        .foreign (key ++ "." ++ rest) .root := by
      rw [Reading.ofCondition, if_pos (hoperator.trans hkey), hunknown]
    rw [hforeign]
    exact Reading.cast_of_plan_keep rfl

/-- Two keys that begin alike and lead to one field are cast alike. -/
theorem castMember_congr {rest' : String}
    (h : (index.resolve .root (key ++ "." ++ rest)).Near
      (index.resolve .root (key ++ "." ++ rest'))) :
    castMember index (key ++ "." ++ rest) v = castMember index (key ++ "." ++ rest') v := by
  rw [castMember_dotted, castMember_dotted, (Reading.Near.location h).cast v]

end Filter

end Filters

namespace Update

variable {index : Index} {p q : FieldPath} {v : Value}

/-- The value under a key that leads to a location, if it is kept. -/
def castKept (index : Index) (p : FieldPath) (v : Value) : Except CastError (Option Value) :=
  if index.keepsAt p v then (castField index p v).map some else .ok none

theorem castKept_congr (h : p.schema = q.schema) : castKept index p v = castKept index q v := by
  have hcast : castField index p v = castField index q v :=
    ((Walker.alike ⟨index, true, .failFast⟩).field v p q h).toExcept
  unfold castKept Index.keepsAt
  rw [h, hcast]

section Members

variable {f : String → Value → Except CastError Value} {key : String}

theorem castEach_append (fs gs : Fields) :
    castEach f (fs ++ gs) =
      (castEach f fs).bind fun as => (castEach f gs).map fun bs => as ++ bs := by
  induction fs with
  | nil => cases hgs : castEach f gs <;> simp [castEach, hgs, Except.bind, Except.map]
  | cons first fs ih =>
    obtain ⟨name, x⟩ := first
    rw [List.cons_append, castEach_cons, castEach_cons, ih]
    cases f name x with
    | error e => rfl
    | ok y =>
      cases castEach f fs with
      | error e => rfl
      | ok as => cases castEach f gs <;> rfl

/-- What stands between other members is cast between them. -/
theorem castEach_between (before after : Fields) :
    castEach f (before ++ (key, v) :: after) =
      ((castEach f before).bind fun bs => (f key v).bind fun w =>
        (castEach f after).map fun as => (bs, w, as)).map
          fun (bs, w, as) => bs ++ (key, w) :: as := by
  rw [castEach_append, castEach_cons]
  cases castEach f before with
  | error e => rfl
  | ok bs =>
    cases f key v with
    | error e => rfl
    | ok w => cases castEach f after <;> rfl

theorem castFields_append (fs gs : Fields) :
    castFields index (fs ++ gs) =
      (castFields index fs).bind fun as => (castFields index gs).map fun bs => as ++ bs := by
  rw [castFields, prune, List.filter_append, castEach_append]
  rfl

theorem castFields_cons {fields : Fields} :
    castFields index ((key, v) :: fields) =
      (castKept index (resolve index key) v).bind fun kept =>
        (castFields index fields).map fun gs => (kept.toList.map fun w => (key, w)) ++ gs := by
  unfold castKept
  cases hkeep : index.keepsAt (resolve index key) v with
  | true =>
    rw [castFields_cons_kept hkeep]
    cases castField index (resolve index key) v <;> rfl
  | false =>
    rw [castFields_cons_dropped hkeep]
    cases castFields index fields <;> rfl

theorem castFields_between (before after : Fields) :
    castFields index (before ++ (key, v) :: after) =
      ((castFields index before).bind fun bs => (castKept index (resolve index key) v).bind
        fun kept => (castFields index after).map fun as => (bs, kept, as)).map
          fun (bs, kept, as) => bs ++ (kept.toList.map fun w => (key, w)) ++ as := by
  rw [castFields_append, castFields_cons]
  cases castFields index before with
  | error e => rfl
  | ok bs =>
    cases castKept index (resolve index key) v with
    | error e => rfl
    | ok kept =>
      cases castFields index after with
      | error e => rfl
      | ok as => simp [Except.bind, Except.map]

end Members

/-- A name below an array, written behind a key that leads to the array and behind positional
segments for any number of its levels, leads to the field of the innermost items. So what stands
under it in a filter or in an update is cast to the same value, or stops the cast with the same
error, whichever of these segments are written. -/
theorem cast_omitted_indices {index : Index} {base : String} {m : Nat} (hm : 1 ≤ m)
    (hlevels : index.HasArrayLevels base m) {key : String}
    (hkey : (index.resolve .root key).schema = base) {name : String}
    (hname : isPositional name = false) (hundotted : '.' ∉ name.toList) :
    let written := fun segments => String.intercalate "." (key :: (segments ++ [name]))
    (∀ segments, WritesLevels m segments → (index.resolve .root (written segments)).schema =
      String.intercalate "." (base :: (List.replicate m wildcard ++ [name]))) ∧
    (∀ v before after, ∃ r : Except CastError (Fields × Value × Fields),
      ∀ segments, WritesLevels m segments →
        Filter.cast index (.object (before ++ (written segments, v) :: after)) =
          r.map fun (bs, w, as) => .object (bs ++ (written segments, w) :: as)) ∧
    ∀ v before after options, ∃ r : Except CastError (Fields × Option Value × Fields),
      ∀ segments, WritesLevels m segments →
        cast index options
            (.object [("$set", .object (before ++ (written segments, v) :: after))]) =
          r.map fun (bs, kept, as) => .object [("$set",
            .object (bs ++ (kept.toList.map fun w => (written segments, w)) ++ as))] := by
  intro written
  have hschema : ∀ segments, WritesLevels m segments →
      (index.resolve .root (written segments)).schema =
        String.intercalate "." (base :: (List.replicate m wildcard ++ [name])) := fun _ =>
    hlevels.schema_resolve hm hkey hname hundotted
  -- Each key is compared with the one that writes no index.
  have hnone : WritesLevels m [] := ⟨Nat.zero_le m, by simp, by simp⟩
  have hsame : ∀ segments, WritesLevels m segments →
      (index.resolve .root (written segments)).schema =
        (index.resolve .root (written [])).schema := fun segments hwritten =>
    (hschema segments hwritten).trans (hschema [] hnone).symm
  refine ⟨hschema, fun v before after => ⟨(castEach (Filter.castMember index) before).bind
      fun bs => (Filter.castMember index (written []) v).bind fun w =>
        (castEach (Filter.castMember index) after).map fun as => (bs, w, as),
      fun segments hwritten => ?_⟩,
    fun v before after options => ⟨(castFields index before).bind
      fun bs => (castKept index (index.resolve .root (written [])) v).bind fun kept =>
        (castFields index after).map fun as => (bs, kept, as),
      fun segments hwritten => ?_⟩⟩
  · have hmember : Filter.castMember index (written segments) v =
        Filter.castMember index (written []) v := by
      have htext : ∀ segments, written segments =
          key ++ "." ++ String.intercalate "." (segments ++ [name]) := fun _ =>
        String.intercalate_cons_of_ne_nil (by simp)
      have hnear : (index.resolve .root (written segments)).Near
          (index.resolve .root (written [])) := by
        refine ⟨hsame segments hwritten, ?_⟩
        rw [hschema segments hwritten, String.intercalate_cons_of_ne_nil (by simp)]
        simp
      rw [htext segments, htext []] at hnear ⊢
      exact Filter.castMember_congr hnear
    rw [Filter.cast_eq_castEach, castEach_between, hmember, Except.map_map]
  · have hkept : castKept index (resolve index (written segments)) v =
        castKept index (index.resolve .root (written [])) v :=
      castKept_congr (hsame segments hwritten)
    rw [cast_operator (by decide), castOperator_fields (.inl (by decide)), castFields_between,
      hkept, Except.map_map, Except.map_map]

/-- A grid of points, as an array of arrays of objects. -/
def grid : Index :=
  ⟨Dictionary.ofList [("grid", some .array), ("grid.$", some .array), ("grid.$.$", some .object),
    ("grid.$.$.x", some (.scalar .number))]⟩

theorem grid_hasArrayLevels : grid.HasArrayLevels "grid" 2 where
  level i hi := by
    match i, hi with
    | 0, _ => exact ⟨rfl, by decide⟩
    | 1, _ => exact ⟨rfl, by decide⟩
  last := by
    have hobject : grid.lookup (itemsBelow "grid" 2) = .object := rfl
    rw [hobject]
    simp

/-- With both indices the key leads to the field of all points, and with one of them the operand of
a filter is the number that it is with none. -/
theorem cast_omitted_indices_grid :
    1 ≤ 2 ∧ grid.HasArrayLevels "grid" 2 ∧ (grid.resolve .root "grid").schema = "grid" ∧
    isPositional "x" = false ∧ '.' ∉ "x".toList ∧
    WritesLevels 2 ["3"] ∧ WritesLevels 2 ["$[row]", "0"] ∧
    (grid.resolve .root "grid.$[row].0.x").schema = "grid.$.$.x" ∧
    Filter.cast grid (.object [("grid.3.x", .string "5")]) =
      .ok (.object [("grid.3.x", .number (.integer 5 (by decide)))]) := by
  have hkey : (grid.resolve .root "grid").schema = "grid" := by decide +kernel
  have hname : isPositional "x" = false := by decide
  have hundotted : '.' ∉ "x".toList := by decide
  have hnone : WritesLevels 2 [] := ⟨by decide, by decide, by decide⟩
  have hone : WritesLevels 2 ["3"] := ⟨by decide, by decide, by decide⟩
  have hboth : WritesLevels 2 ["$[row]", "0"] := ⟨by decide, by decide, by decide⟩
  obtain ⟨hschema, hfilter, -⟩ :=
    cast_omitted_indices (by decide) grid_hasArrayLevels hkey hname hundotted
  refine ⟨by decide, grid_hasArrayLevels, hkey, hname, hundotted, hone, hboth,
    hschema ["$[row]", "0"] hboth, ?_⟩
  obtain ⟨r, hr⟩ := hfilter (.string "5") [] []
  have hplain : Filter.cast grid (.object [("grid.x", .string "5")]) =
      .ok (.object [("grid.x", .number (.integer 5 (by decide)))]) :=
    Except.eq_ok_of_toOption (by decide +kernel)
  obtain ⟨⟨bs, w, as⟩, rfl, heq⟩ := Except.map_eq_ok_iff.1 ((hr [] hnone).symm.trans hplain)
  obtain ⟨rfl, hcons⟩ | ⟨-, hcons⟩ := List.append_eq_singleton_iff.1 (Value.object.inj heq)
  · obtain ⟨hw, rfl⟩ := List.cons.inj hcons
    obtain ⟨-, rfl⟩ := Prod.mk.inj hw
    exact hr ["3"] hone
  · cases hcons

end Update

end TypedDocs
