import TypedDocs.Proofs.Filter.Reading
import TypedDocs.Proofs.Schema.Follow

/-!
# A cast depends on the schema key only

Below the root a filter cast looks at the schema key of a location and not at its
instance key, which no filter error shows. So two locations that differ in the indices
of items only cast every operand alike.
-/

namespace TypedDocs

/-- Locations with one schema key, but for the root, where sub-filters are read in another way. -/
structure FieldPath.Near (p q : FieldPath) : Prop where
  schema : p.schema = q.schema
  below : p.schema ≠ ""

section Locations

variable {index : Index} {p q : FieldPath}

theorem FieldPath.Near.of_join (h : p.Near q) {p' q' : FieldPath} {s : String}
    (hp : p'.schema = join p.schema s) (hq : q'.schema = join q.schema s) : p'.Near q' where
  schema := by rw [hp, hq, h.schema]
  below := by
    rw [hp]
    exact join_base_ne_empty h.below

theorem FieldPath.Near.not_root (h : p.Near q) : p.isRoot = false ∧ q.isRoot = false := by
  have hp := h.below
  have hq : q.schema ≠ "" := h.schema ▸ hp
  simp [isRoot, hp, hq]

theorem FieldPath.Near.enterItems (h : p.Near q) :
    (index.enterItems p).Near (index.enterItems q) := by
  induction p using Index.enterItems.induct index generalizing q with
  | case1 p henters ih =>
    have henters' : index.entersItems q = true := Index.entersItems_congr h.schema ▸ henters
    rw [Index.enterItems_of_enters henters, Index.enterItems_of_enters henters']
    exact ih (h.of_join rfl rfl)
  | case2 p hstays =>
    have hstays : index.entersItems p = false := by simpa using hstays
    have hstays' : index.entersItems q = false := Index.entersItems_congr h.schema ▸ hstays
    rw [Index.enterItems_of_stays hstays, Index.enterItems_of_stays hstays']
    exact h

theorem FieldPath.Near.followSegment (h : p.Near q) (s : String) :
    (index.followSegment p s).Near (index.followSegment q s) := by
  unfold Index.followSegment
  split
  · exact h.of_join rfl rfl
  · exact h.enterItems.of_join rfl rfl

theorem FieldPath.Near.resolve (h : p.Near q) (key : String) :
    (index.resolve p key).Near (index.resolve q key) := by
  unfold Index.resolve
  generalize segmentsOf key = segments
  induction segments generalizing p q with
  | nil => exact h
  | cons s rest ih => exact ih (h.followSegment s)

theorem operandLanding_array (h : (index.lookup p.schema).isArray = true) :
    index.operandLanding p = ((index.operandLanding (p.child (.index 0))).1 + 1,
      (index.operandLanding (p.child (.index 0))).2) := by
  rw [Index.operandLanding, dif_pos h]

theorem operandLanding_rest (h : ¬ (index.lookup p.schema).isArray = true) :
    index.operandLanding p = (0, p) := by
  rw [Index.operandLanding, dif_neg h]

theorem FieldPath.Near.operandLanding (h : p.Near q) :
    (index.operandLanding p).1 = (index.operandLanding q).1 ∧
      (index.operandLanding p).2.Near (index.operandLanding q).2 := by
  induction p using Index.operandLanding.induct index generalizing q with
  | case1 p harray n m hlanding ih =>
    have harray' : (index.lookup q.schema).isArray = true := h.schema ▸ harray
    have hchild : (p.child (.index 0)).Near (q.child (.index 0)) := h.of_join rfl rfl
    obtain ⟨hn, hm⟩ := ih hchild
    rw [operandLanding_array harray, operandLanding_array harray']
    exact ⟨congrArg (· + 1) hn, hm⟩
  | case2 p harray =>
    have harray' : ¬ (index.lookup q.schema).isArray = true := h.schema ▸ harray
    rw [operandLanding_rest harray, operandLanding_rest harray']
    exact ⟨rfl, h⟩

end Locations

/-- One reading, but for the instance keys of its locations. -/
inductive Reading.Near : Reading → Reading → Prop
  | same (r : Reading) : Near r r
  | foreign {p q : FieldPath} (name : String) : p.Near q → Near (.foreign name p) (.foreign name q)
  | location {p q : FieldPath} : p.Near q → Near (.location p) (.location q)
  | comparand {p q : FieldPath} : p.Near q → Near (.comparand p) (.comparand q)
  | members {r r' : Reading} : Near r r' → Near (.members r) (.members r')
  | logical {p q : FieldPath} : p.Near q → Near (.logical p) (.logical q)
  | subfilter {p q : FieldPath} (i : Nat) : p.Near q → Near (.subfilter p i) (.subfilter q i)
  | container {p q : FieldPath} : p.Near q → Near (.container p) (.container q)

/-- One step, but for the instance keys in the readings of the parts. -/
inductive Step.Near : Step → Step → Prop
  | same (s : Step) : Near s s
  | items {f g : Nat → Reading} : (∀ i, (f i).Near (g i)) → Near (.items f) (.items g)
  | fields {f g : String → Reading} : (∀ key, (f key).Near (g key)) → Near (.fields f) (.fields g)

structure Plan.Near (a b : Plan) : Prop where
  wraps : a.wraps = b.wraps
  step : a.step.Near b.step

section Plans

variable {index : Index} {p q : FieldPath} {v : Value}

theorem Plan.Near.same (a : Plan) : a.Near a := ⟨rfl, .same _⟩

theorem Plan.Near.wrapped {a b : Plan} (h : a.Near b) (n : Nat) :
    (a.wrapped n).Near (b.wrapped n) :=
  ⟨congrArg (· + n) h.wraps, h.step⟩

theorem ofCondition_near (h : p.Near q) (key : String) :
    (Reading.ofCondition index p key).Near (Reading.ofCondition index q key) := by
  unfold Reading.ofCondition
  split
  · split
    · exact .logical h
    · exact .comparand h
    · exact .members (.comparand h)
    · exact .same _
    · exact .container h
    · exact .same _
    · exact .foreign key h
  · exact .location (h.resolve key)

theorem conditions_near (h : p.Near q) :
    (Plan.conditions index p v).Near (Plan.conditions index q v) := by
  cases v with
  | object fs => exact .fields (ofCondition_near h)
  | _ => exact .same _

theorem atRest_near (h : p.Near q) : (Plan.atRest index p v).Near (Plan.atRest index q v) := by
  unfold Plan.atRest
  rw [← h.schema]
  split
  · exact .same _
  · exact .same _
  · exact .same _
  · exact conditions_near h
  · exact .same _

theorem array_near (h : p.Near q) : (Plan.array index p v).Near (Plan.array index q v) := by
  unfold Plan.array
  split
  · exact .same _
  · split
    · exact ⟨rfl, conditions_near h⟩
    · split
      · exact ⟨rfl, .items fun i => .location (h.of_join rfl rfl)⟩
      · exact ⟨h.operandLanding.1, atRest_near h.operandLanding.2⟩

theorem location_near (h : p.Near q) :
    (Plan.location index p v).Near (Plan.location index q v) := by
  unfold Plan.location
  rw [← h.schema]
  split
  · exact .same _
  · split
    · exact array_near h
    · exact ⟨rfl, atRest_near h⟩

theorem comparand_near (h : p.Near q) :
    (Plan.comparand index p v).Near (Plan.comparand index q v) := by
  unfold Plan.comparand
  rw [← h.schema]
  split
  · split
    · exact .same _
    · exact location_near h
    · split
      · exact .same _
      · split
        · exact ⟨rfl, conditions_near h⟩
        · exact location_near (h.of_join rfl rfl)
  · exact location_near h

theorem subfilter_near (h : p.Near q) (i : Nat) :
    (Plan.subfilter index p i v).Near (Plan.subfilter index q i v) := by
  unfold Plan.subfilter
  simp only [h.not_root.1, h.not_root.2, ← h.schema, Bool.false_eq_true, if_false]
  split
  · split
    · exact ⟨rfl, conditions_near h⟩
    · split
      · exact comparand_near h
      · exact location_near (h.of_join rfl rfl)
  · exact location_near h

theorem container_near (h : p.Near q) :
    (Plan.container index p v).Near (Plan.container index q v) := by
  have helement : p.element.Near q.element := h.of_join rfl rfl
  unfold Plan.container
  rw [← helement.schema]
  split
  · exact conditions_near helement
  · exact conditions_near helement
  · exact .same _
  · exact .same _
  · exact .same _

variable (index v) in
theorem Reading.Near.plan {r r' : Reading} (h : r.Near r') :
    (r.plan index v).Near (r'.plan index v) := by
  induction h with
  | same r => exact .same _
  | foreign name hp => exact .same _
  | location hp => exact location_near hp
  | comparand hp => exact comparand_near hp
  | members hr ih =>
    cases v with
    | null => exact .same _
    | array xs => exact ⟨rfl, .items fun _ => hr⟩
    | _ => exact ih.wrapped 1
  | logical hp =>
    cases v with
    | array xs => exact ⟨rfl, .items fun i => .subfilter i hp⟩
    | _ => exact (subfilter_near hp 0).wrapped 1
  | subfilter i hp => exact subfilter_near hp i
  | container hp => exact ⟨rfl, container_near hp⟩

end Plans

namespace Reading

variable {index : Index} {r r' : Reading} {v : Value}

/-- A value that is not taken apart is cast by the plan alone, up to the readings of parts. -/
theorem Near.cast_whole (h : r.Near r') (harray : v.isArray = false)
    (hobject : v.isObject = false) : r.cast index v = r'.cast index v := by
  obtain ⟨hwraps, hstep⟩ := h.plan index v
  generalize hs : (r.plan index v).step = s at hstep
  generalize hs' : (r'.plan index v).step = s' at hstep
  cases v with
  | array xs => cases harray
  | object fs => cases hobject
  | _ => cases hstep <;> simp only [Reading.cast, hs, hs', hwraps]

theorem Near.cast_array {xs : List Value} (h : r.Near r')
    (hparts : ∀ f g : Nat → Reading, (∀ i, (f i).Near (g i)) →
      Reading.castItems index f 0 xs = Reading.castItems index g 0 xs) :
    r.cast index (.array xs) = r'.cast index (.array xs) := by
  obtain ⟨hwraps, hstep⟩ := h.plan index (.array xs)
  generalize hs : (r.plan index (.array xs)).step = s at hstep
  generalize hs' : (r'.plan index (.array xs)).step = s' at hstep
  cases hstep with
  | items hnear => rw [cast_of_items hs, cast_of_items hs', hparts _ _ hnear, hwraps]
  | _ => simp only [Reading.cast, hs, hs', hwraps]

theorem Near.cast_object {fs : Fields} (h : r.Near r')
    (hparts : ∀ f g : String → Reading, (∀ key, (f key).Near (g key)) →
      Reading.castFields index f fs = Reading.castFields index g fs) :
    r.cast index (.object fs) = r'.cast index (.object fs) := by
  obtain ⟨hwraps, hstep⟩ := h.plan index (.object fs)
  generalize hs : (r.plan index (.object fs)).step = s at hstep
  generalize hs' : (r'.plan index (.object fs)).step = s' at hstep
  cases hstep with
  | fields hnear => rw [cast_of_fields hs, cast_of_fields hs', hparts _ _ hnear, hwraps]
  | _ => simp only [Reading.cast, hs, hs', hwraps]

mutual
/-- Readings that differ in instance keys only cast alike. -/
theorem Near.cast {index : Index} : ∀ (v : Value) {r r' : Reading}, r.Near r' →
    r.cast index v = r'.cast index v
  | .array xs, _, _, h => h.cast_array fun _ _ hparts => Near.castItems xs 0 hparts
  | .object fs, _, _, h => h.cast_object fun _ _ hparts => Near.castFields fs hparts
  | .null, _, _, h => h.cast_whole rfl rfl
  | .bool _, _, _, h => h.cast_whole rfl rfl
  | .number _, _, _, h => h.cast_whole rfl rfl
  | .string _, _, _, h => h.cast_whole rfl rfl
theorem Near.castItems {index : Index} : ∀ (xs : List Value) (i : Nat) {f g : Nat → Reading},
    (∀ i, (f i).Near (g i)) → Reading.castItems index f i xs = Reading.castItems index g i xs
  | [], _, _, _, _ => rfl
  | x :: xs, i, _, _, h => by
    rw [castItems_cons, castItems_cons, Near.cast x (h i), Near.castItems xs (i + 1) h]
theorem Near.castFields {index : Index} : ∀ (fs : List (String × Value))
    {f g : String → Reading}, (∀ key, (f key).Near (g key)) →
    Reading.castFields index f fs = Reading.castFields index g fs
  | [], _, _, _ => rfl
  | (key, x) :: fs, _, _, h => by
    rw [castFields_cons, castFields_cons, Near.cast x (h key), Near.castFields fs h]
end

end Reading

end TypedDocs
