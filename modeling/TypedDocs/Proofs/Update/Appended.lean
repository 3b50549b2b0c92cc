import TypedDocs.Proofs.Document.Policies
import TypedDocs.Proofs.Document.SchemaKey
import TypedDocs.Proofs.Update.Typed

/-!
# Appending agrees with casting the whole array

Items that are appended to an array are cast one by one, with no index to tell where they will
be. In a document the same items are cast at their places. The items become the same either way,
and the first of them that cannot be cast has the same error.
-/

namespace TypedDocs

namespace Walker

variable {w : Walker} {p : FieldPath}

/-- Items are cast in order as items of no known index, up to the first that fails. -/
theorem toExcept_items (hpolicy : w.policy = .failFast) (xs : List Value) (i : Nat) :
    (w.items p i xs).toExcept = xs.mapM fun x => (w.field p.element x).toExcept := by
  induction xs generalizing i with
  | nil => rfl
  | cons x xs ih =>
    have hschema : (p.child (.index i)).schema = p.element.schema := rfl
    rw [Except.mapM_cons, ← ((alike w).field x _ _ hschema).toExcept, ← ih (i + 1)]
    cases hfailures : (w.field (p.child (.index i)) x).failures with
    | nil =>
      rw [items_cons_clean hfailures, Walked.toExcept_map, Walked.toExcept_of_clean hfailures]
      rfl
    | cons f rest =>
      have hstops : w.stops (w.field (p.child (.index i)) x).failures = true :=
        stops_of_failFast hpolicy (by simp [hfailures])
      rw [Walked.toExcept_of_failed hfailures, items_cons_stopped hstops]
      exact Walked.toExcept_of_failed hfailures

/-- An array is cast item by item. Items without a declared type are left as they are, in the
array and by themselves. -/
theorem toExcept_field_array (hpolicy : w.policy = .failFast)
    (harray : w.index.lookup p.schema = .array) (xs : List Value) :
    (w.field p (.array xs)).toExcept =
      (xs.mapM fun x => (w.field p.element x).toExcept).map .array := by
  cases htyped : (w.index.lookup p.element.schema).isTyped with
  | true =>
    have hd : w.index.demand p = .items := by
      rw [Index.demand, harray]
      exact if_pos htyped
    rw [field_items hd, Walked.toExcept_map, toExcept_items hpolicy]
  | false =>
    have hd : w.index.demand p = .nothing := by
      rw [Index.demand, harray]
      exact if_neg (Bool.eq_false_iff.1 htyped)
    have hitem : w.index.demand p.element = .nothing := by
      rw [Index.demand]
      cases hl : w.index.lookup p.element.schema with
      | undeclared => rfl
      | untyped => rfl
      | _ => rw [hl] at htyped; cases htyped
    have hkept : (fun x => (w.field p.element x).toExcept) = fun x => pure x := by
      funext x
      rw [field_nothing hitem]
      rfl
    rw [field_nothing hd, hkept, List.mapM_pure, List.map_id']
    rfl

end Walker

namespace Update

section Operands

variable {index : Index} {options : UpdateOptions} {op key : String} {v : Value}

/-- An operator that appends to one array casts what is appended there. -/
theorem cast_append (hop : UpdateOperator.ofName op = .append)
    (harray : index.lookup (resolve index key).schema = .array) :
    cast index options (.object [(op, .object [(key, v)])]) =
      (castAppended index (resolve index key) v).map
        fun w => .object [(op, .object [(key, w)])] := by
  have hoperator : isOperator op = true := UpdateOperator.isOperator_of_name (by simp [hop])
  have hkeep : prune index false [(key, v)] = [(key, v)] := by
    simp [prune, keepsName, harray]
  have hoperand : castOperator index op (.object [(key, v)]) =
      (castAppended index (resolve index key) v).map fun w => .object [(key, w)] := by
    unfold castOperator
    rw [hop]
    simp only [castOperand, hkeep, castEach_cons]
    cases castAppended index (resolve index key) v <;> rfl
  rw [cast_operator hoperator, hoperand, Except.map_map]

theorem castAppended_each {p : FieldPath} (harray : index.lookup p.schema = .array)
    (vs : List Value) :
    castAppended index p (.object [(eachKey, .array vs)]) =
      (vs.mapM (castField index p.element)).map fun ws => .object [(eachKey, .array ws)] := by
  have hsome : Fields.get? [(eachKey, .array vs)] eachKey = some (.array vs) := by rfl
  rw [castAppended_several (by rw [harray]; rfl) hsome, castItems, Except.map_map]
  rfl

end Operands

section Documents

variable {index : Index} {key : String}

/-- A document with an array in its only field comes to what its items come to. -/
theorem comesTo_array (harray : index.lookup key = .array) (vs : List Value) :
    Document.ComesTo index (.object [(key, .array vs)])
      ((vs.mapM (castField index (FieldPath.root.child (.key key)).element)).map
        fun ws => .object [(key, .array ws)]) := by
  have hkeep : index.keepsField "" key (.array vs) = true := by
    have hjoin : join "" key = key := rfl
    rw [Index.keepsField, hjoin, harray]
  have hfield := Walker.toExcept_field_array (w := Walker.caster index .failFast)
    (p := FieldPath.root.child (.key key)) rfl harray vs
  have hwalk := Document.comesTo_walk index (.object [(key, .array vs)])
  rw [Document.walk_field hkeep, Walked.toExcept_map, hfield, Except.map_map] at hwalk
  exact hwalk

end Documents

/-- Several items are appended as the array of them is cast in a document, and a single one as it
is cast as the only item of an array. -/
theorem append_agrees {registry : Registry} {compileOptions : CompileOptions} {definition : Value}
    {index : Index} (hcompile : Definition.compile registry compileOptions definition = .ok index)
    {op key : String} (hop : UpdateOperator.ofName op = .append) (hundotted : '.' ∉ key.toList)
    (hname : isPositional key = false) (harray : index.lookup key = .array)
    (options : UpdateOptions) :
    (∀ vs : List Value, ∃ r : Except CastError (List Value),
      cast index options (.object [(op, .object [(key, .object [(eachKey, .array vs)])])]) =
        r.map (fun ws => .object [(op, .object [(key, .object [(eachKey, .array ws)])])]) ∧
      Document.ComesTo index (.object [(key, .array vs)])
        (r.map fun ws => .object [(key, .array ws)])) ∧
    (∀ v : Value, listsItems v = false → ∃ r : Except CastError Value,
      cast index options (.object [(op, .object [(key, v)])]) =
        r.map (fun w => .object [(op, .object [(key, w)])]) ∧
      Document.ComesTo index (.object [(key, .array [v])])
        (r.map fun w => .object [(key, .array [w])])) := by
  have hroot : index.lookup FieldPath.root.schema = .undeclared :=
    Definition.lookup_empty_of_compile hcompile
  have hresolve : resolve index key = FieldPath.root.child (.key key) :=
    Index.resolve_name hundotted hname (by rw [hroot]; rfl)
  have hlookup : index.lookup (resolve index key).schema = .array := by
    rw [hresolve]
    exact harray
  constructor
  · intro vs
    refine ⟨vs.mapM (castField index (resolve index key).element), ?_, ?_⟩
    · rw [cast_append hop hlookup, castAppended_each hlookup, Except.map_map]
    · rw [hresolve]
      exact comesTo_array harray vs
  · intro v hone
    refine ⟨castField index (resolve index key).element v, ?_, ?_⟩
    · rw [cast_append hop hlookup, castAppended_one (by rw [hlookup]; rfl) hone]
    · have hwhole := comesTo_array harray [v]
      rw [← hresolve, Except.mapM_cons] at hwhole
      cases hv : castField index (resolve index key).element v with
      | ok w =>
        rw [hv] at hwhole
        exact hwhole
      | error e =>
        rw [hv] at hwhole
        exact hwhole

/-- Two members are appended: one that is null, and one whose name is made a text and whose age is
not declared. -/
theorem append_agrees_bands :
    let member : Value := .object [("first", .bool true), ("age", .string "24")]
    let typed : Value := .object [("first", .string "true")]
    cast bands {} (.object [("$push", .object
        [("members", .object [("$each", .array [.null, member])])])]) =
      .ok (.object [("$push", .object
        [("members", .object [("$each", .array [.null, typed])])])]) ∧
    Document.ComesTo bands (.object [("members", .array [.null, member])])
      (.ok (.object [("members", .array [.null, typed])])) := by
  intro member typed
  have hcast : cast bands {} (.object [("$push", .object
      [("members", .object [("$each", .array [.null, member])])])]) =
      .ok (.object [("$push", .object
        [("members", .object [("$each", .array [.null, typed])])])]) :=
    Except.eq_ok_of_toOption (by decide +kernel)
  have hop : UpdateOperator.ofName "$push" = .append := rfl
  have harray : bands.lookup "members" = .array := rfl
  obtain ⟨r, hr, hcomes⟩ :=
    (append_agrees compile_bands hop (by decide) (by decide) harray {}).1 [.null, member]
  obtain ⟨ws, hws, heq⟩ := Except.map_eq_ok_iff.1 (hr.symm.trans hcast)
  cases heq
  rw [hws] at hcomes
  exact ⟨hcast, hcomes⟩

end Update

end TypedDocs
