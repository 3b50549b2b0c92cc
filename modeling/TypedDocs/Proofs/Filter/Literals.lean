import TypedDocs.Proofs.Filter.Comparable
import TypedDocs.Proofs.Schema.Bands

/-!
# No literal is left uncast

A result of a filter cast is read again from its root: through lists of sub-filters,
the fields of objects, operands on arrays and conditions on items. At every operand
met on the way the index says what has to be found, and that is what a cast leaves.
-/

namespace TypedDocs

open FilterOperator Reading

/-- What is met while a filter is read. -/
inductive FilterPart where
  /-- An object whose fields are conditions. -/
  | conditions (fs : Fields)
  /-- The operand of a field, or of an item. -/
  | operand (v : Value)

/-- Where an object is read as conditions; on an array, only objects of operators are. -/
def Index.TakesConditions (index : Index) (p : FieldPath) (fs : Fields) : Prop :=
  index.lookup p.schema = .object ∨
    (index.lookup p.schema = .array ∧ isOperatorObject (.object fs) = true)

/-- The parts of a filter with the locations they are read at. -/
inductive Reads (index : Index) (filter : Fields) : FieldPath → FilterPart → Prop
  | filter : Reads index filter .root (.conditions filter)
  | alternative {p : FieldPath} {fs gs : Fields} {key : String} {xs : List Value} :
      Reads index filter p (.conditions fs) →
      p.isRoot = true ∨ index.lookup p.schema = .object →
      (key, .array xs) ∈ fs → ofName key = .logical → .object gs ∈ xs →
      Reads index filter p (.conditions gs)
  | elemMatch {p : FieldPath} {fs gs : Fields} {key : String} :
      Reads index filter p (.conditions fs) → (key, .object gs) ∈ fs → ofName key = .container →
      index.lookup p.element.schema = .array ∨ index.lookup p.element.schema = .object →
      Reads index filter p.element (.conditions gs)
  | field {p : FieldPath} {fs : Fields} {key : String} {v : Value} :
      Reads index filter p (.conditions fs) → (key, v) ∈ fs → isOperator key = false →
      Reads index filter (index.resolve p key) (.operand v)
  | nested {p : FieldPath} {gs : Fields} : Reads index filter p (.operand (.object gs)) →
      index.TakesConditions p gs → Reads index filter p (.conditions gs)
  | item {p : FieldPath} {xs : List Value} {i : Nat} {x : Value} :
      Reads index filter p (.operand (.array xs)) → index.lookup p.schema = .array →
      xs[i]? = some x → Reads index filter (p.child (.index i)) (.operand x)

/-- What the index asks of an operand in a cast filter. -/
structure Settled (index : Index) (p : FieldPath) (v : Value) : Prop where
  scalar : ∀ t, index.lookup p.schema = .scalar t → Comparable t v
  object : index.lookup p.schema = .object → v = .null ∨ v.isObject = true
  items : ∀ t, index.lookup p.schema = .array →
    index.lookup (join p.schema wildcard) = .scalar t → ItemsComparable t v

/-- What is known of a part of a cast filter: it is the result of a cast at its location. -/
def FilterPart.IsCast (index : Index) (p : FieldPath) : FilterPart → Prop
  | .conditions gs => ∃ fs, castFields index (ofCondition index p) fs = .ok gs
  | .operand v => ∃ u, (location p).cast index u = .ok v

section Inversion

variable {index : Index} {p : FieldPath} {gs : Fields} {u v : Value}

theorem conditions_of_object (h : index.lookup p.schema = .object)
    (hcast : (location p).cast index u = .ok v) :
    v = .null ∨ ∃ fs gs, v = .object gs ∧ castFields index (ofCondition index p) fs = .ok gs := by
  cases u with
  | null =>
    rw [cast_location_null] at hcast
    cases hcast
    exact .inl rfl
  | object fs =>
    rw [cast_location_object h] at hcast
    obtain ⟨gs, hgs, rfl⟩ := Except.map_eq_ok_iff.1 hcast
    exact .inr ⟨fs, gs, rfl, hgs⟩
  | _ =>
    rw [cast_location_misshapen h rfl rfl] at hcast
    cases hcast

/-- An operand on an array is left as it is, read as conditions, or made a list of items. -/
theorem cases_of_array (h : index.lookup p.schema = .array)
    (hcast : (location p).cast index u = .ok v) :
    (v.isArray = false ∧ isOperatorObject v = false) ∨
    (∃ fs gs, v = .object gs ∧ castFields index (ofCondition index p) fs = .ok gs) ∨
    ∃ ys, v = .array ys ∧ ∀ i y, ys[i]? = some y →
      ∃ x, (location (p.child (.index i))).cast index x = .ok y := by
  have harray : (index.lookup p.schema).isArray = true := by
    rw [h]
    rfl
  rcases operand_cases u with rfl | ⟨xs, rfl⟩ | hforeign | ⟨fs, rfl, hops⟩ | hsingle
  · rw [cast_location_null] at hcast
    cases hcast
    exact .inl ⟨rfl, rfl⟩
  · rw [cast_location_items harray] at hcast
    obtain ⟨ys, hys, rfl⟩ := Except.map_eq_ok_iff.1 hcast
    refine .inr (.inr ⟨ys, rfl, fun i y hy => ?_⟩)
    obtain ⟨x, -, hx⟩ := getElem?_of_castItems hys hy
    rw [Nat.zero_add] at hx
    exact ⟨x, hx⟩
  · rw [cast_location_foreign harray hforeign] at hcast
    cases hcast
    exact .inl (not_operators_of_foreign hforeign)
  · rw [cast_location_operators harray hops] at hcast
    obtain ⟨gs, hgs, rfl⟩ := Except.map_eq_ok_iff.1 hcast
    exact .inr (.inl ⟨fs, gs, rfl, hgs⟩)
  · rw [cast_location_single harray hsingle] at hcast
    obtain ⟨y, hy, rfl⟩ := Except.map_eq_ok_iff.1 hcast
    refine .inr (.inr ⟨[y], rfl, fun i z hz => ?_⟩)
    cases i with
    | zero => cases hz; exact ⟨u, hy⟩
    | succ i => cases hz

theorem conditions_of_location (hp : index.TakesConditions p gs)
    (hcast : (location p).cast index u = .ok (.object gs)) :
    ∃ fs, castFields index (ofCondition index p) fs = .ok gs := by
  rcases hp with hobject | ⟨harray, hops⟩
  · rcases conditions_of_object hobject hcast with hnull | ⟨fs, gs', heq, hgs⟩
    · cases hnull
    · cases heq
      exact ⟨fs, hgs⟩
  · rcases cases_of_array harray hcast with ⟨-, hnot⟩ | ⟨fs, gs', heq, hgs⟩ | ⟨ys, heq, -⟩
    · rw [hops] at hnot
      cases hnot
    · cases heq
      exact ⟨fs, hgs⟩
    · cases heq

theorem conditions_of_subfilter {i : Nat}
    (hp : p.isRoot = true ∨ index.lookup p.schema = .object)
    (hcast : (subfilter p i).cast index u = .ok (.object gs)) :
    ∃ fs, castFields index (ofCondition index p) fs = .ok gs := by
  cases hroot : p.isRoot with
  | true =>
    cases u with
    | object fs =>
      rw [cast_subfilter_root hroot] at hcast
      obtain ⟨gs', hgs, heq⟩ := Except.map_eq_ok_iff.1 hcast
      cases heq
      exact ⟨fs, hgs⟩
    | _ =>
      rw [cast_subfilter_root_misshapen hroot rfl] at hcast
      cases hcast
  | false =>
    have hobject : index.lookup p.schema = .object := by
      rcases hp with h | h
      · rw [hroot] at h
        cases h
      · exact h
    rw [cast_subfilter_location hroot (by rw [hobject]; rfl)] at hcast
    exact conditions_of_location (.inl hobject) hcast

theorem conditions_of_container
    (hp : index.lookup p.element.schema = .array ∨ index.lookup p.element.schema = .object)
    (hcast : (container p).cast index u = .ok (.object gs)) :
    ∃ fs, castFields index (ofCondition index p.element) fs = .ok gs := by
  cases u with
  | object fs =>
    rw [cast_container_conditions hp] at hcast
    obtain ⟨gs', hgs, heq⟩ := Except.map_eq_ok_iff.1 hcast
    cases heq
    exact ⟨fs, hgs⟩
  | _ =>
    rw [cast_container_misshapen hp rfl] at hcast
    cases hcast

end Inversion

/-- Every part that is read in a cast filter is the result of a cast at its location. -/
theorem isCast_of_reads {index : Index} {filter gs : Fields} {p : FieldPath} {part : FilterPart}
    (hfilter : castFields index (ofCondition index .root) filter = .ok gs)
    (h : Reads index gs p part) : part.IsCast index p := by
  induction h with
  | filter => exact ⟨filter, hfilter⟩
  | alternative _ hp hxs hop hx ih =>
    obtain ⟨fs, hfs⟩ := ih
    obtain ⟨u, -, hcast⟩ := mem_of_castFields hfs hxs
    rw [ofCondition_known (by simp [hop]), hop] at hcast
    obtain ⟨ys, heq, hys⟩ := items_of_logical hcast
    cases heq
    obtain ⟨x, i, -, hcastx⟩ := hys _ hx
    exact conditions_of_subfilter hp hcastx
  | elemMatch _ hmem hop hp ih =>
    obtain ⟨fs, hfs⟩ := ih
    obtain ⟨u, -, hcast⟩ := mem_of_castFields hfs hmem
    rw [ofCondition_known (by simp [hop]), hop] at hcast
    exact conditions_of_container hp hcast
  | field _ hmem hop ih =>
    obtain ⟨fs, hfs⟩ := ih
    obtain ⟨u, -, hcast⟩ := mem_of_castFields hfs hmem
    rw [ofCondition, if_neg (by simp [hop])] at hcast
    exact ⟨u, hcast⟩
  | nested _ hp ih =>
    obtain ⟨u, hcast⟩ := ih
    exact conditions_of_location hp hcast
  | item _ harray hx ih =>
    obtain ⟨u, hcast⟩ := ih
    rcases cases_of_array harray hcast with ⟨hnot, -⟩ | ⟨fs, gs', heq, -⟩ | ⟨ys, heq, hys⟩
    · cases hnot
    · cases heq
    · cases heq
      exact hys _ _ hx

theorem settled_of_cast {index : Index} (hrules : index.HasBuiltinRules)
    (hroot : index.lookup "" = .undeclared) {p : FieldPath} {u v : Value}
    (h : (location p).cast index u = .ok v) : Settled index p v where
  scalar t ht := comparable_of_item (hrules ht) ht h
  object hobject := by
    rcases conditions_of_object hobject h with rfl | ⟨fs, gs, rfl, -⟩
    · exact .inl rfl
    · exact .inr rfl
  items t harray ht := by
    -- A list of sub-filters is read otherwise at the root, which no compiled index declares.
    have hnotRoot : p.isRoot = false := by
      cases hp : p.isRoot with
      | false => rfl
      | true =>
        simp only [FieldPath.isRoot, Bool.and_eq_true, String.isEmpty_iff] at hp
        rw [hp.2, hroot] at harray
        cases harray
    exact itemsComparable_of_cast (hrules ht) hnotRoot (by rw [harray]; rfl) ht _ u v .location h

namespace Filter

/-- In the result of a filter cast every operand is settled, however the filter is read. -/
theorem cast_settled {registry : Registry} {options : CompileOptions} {definition : Value}
    {index : Index} (hcompile : Definition.compile registry options definition = .ok index)
    (hregistry : registry.HasBuiltinRules) {filter result : Value}
    (h : cast index filter = .ok result) :
    ∃ gs, result = .object gs ∧
      ∀ p v, Reads index gs p (.operand v) → Settled index p v := by
  have hrules := Definition.hasBuiltinRules_of_compile hregistry hcompile
  have hroot := Definition.lookup_empty_of_compile hcompile
  cases filter with
  | object fs =>
    obtain ⟨gs, hgs, rfl⟩ := Except.map_eq_ok_iff.1 h
    refine ⟨gs, rfl, fun p v hreads => ?_⟩
    obtain ⟨u, hu⟩ := isCast_of_reads hgs hreads
    exact settled_of_cast hrules hroot hu
  | _ => cases h

/-- A flag among the tags asked for is made the text that tags are compared with. -/
theorem cast_settled_bands :
    cast bands (.object [("tags", .object [("$in", .bool true)])]) =
        .ok (.object [("tags", .object [("$in", .array [.string "true"])])]) ∧
      Settled bands (bands.resolve .root "tags") (.object [("$in", .array [.string "true"])]) := by
  have hcast : cast bands (.object [("tags", .object [("$in", .bool true)])]) =
      .ok (.object [("tags", .object [("$in", .array [.string "true"])])]) :=
    Except.eq_ok_of_toOption (by decide +kernel)
  obtain ⟨gs, heq, hsettled⟩ :=
    cast_settled compile_bands Registry.builtin_hasBuiltinRules hcast
  cases heq
  exact ⟨hcast, hsettled _ _ (.field .filter List.mem_cons_self rfl)⟩

end Filter

end TypedDocs
