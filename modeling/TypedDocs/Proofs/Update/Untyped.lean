import TypedDocs.Proofs.Schema.Open
import TypedDocs.Proofs.Update.Nested

/-!
# Untyped values under keys and locations of their own

A walk of a document does not look into a path that is declared without a type, nor into
an array whose items have no type, and so keeps what is there. A key or a location that
goes on below such a path is looked up on its own and is not declared. An update then
drops the entry, and a cast of a document at that location drops its fields.
-/

namespace TypedDocs

theorem Index.IsOpen.demand {index : Index} {p : FieldPath} (h : index.IsOpen p.schema) :
    index.demand p = .nothing := by
  rcases h with huntyped | ⟨harray, hitems⟩
  · rw [Index.demand, huntyped]
  · rw [Index.demand, harray]
    simp [hitems]

namespace Walker

variable {w : Walker} {d : Declarations} {p : FieldPath} {fs : Fields}

theorem fields_of_undeclared (h : ∀ key, w.index.lookup (join p.schema key) = .undeclared) :
    w.fields p fs = .clean [] := by
  induction fs with
  | nil => rfl
  | cons first fs ih =>
    obtain ⟨key, x⟩ := first
    have hdropped : w.index.keepsField p.schema key x = false := by
      rw [Index.keepsField, h key]
    rw [fields_cons_dropped hdropped, ih]

/-- Of a document at an open path nothing is kept but a field named like the items. -/
theorem fields_open (hbuild : Index.build d = .ok w.index) (hp : p.schema ≠ "")
    (hopen : w.index.IsOpen p.schema) : w.fields p fs = .clean (fs.filter fun f =>
      w.index.contains (join p.schema wildcard) && f.1 == wildcard) := by
  induction fs with
  | nil => rfl
  | cons first fs ih =>
    obtain ⟨key, x⟩ := first
    by_cases hkept : w.index.contains (join p.schema wildcard) = true ∧ key = wildcard
    · obtain ⟨hcontains, rfl⟩ := hkept
      have huntyped := hopen.item hcontains hbuild hp
      have hkeep : w.index.keepsField p.schema wildcard x = true := by
        rw [Index.keepsField, huntyped]
      have hitem : w.index.IsOpen (p.child (.key wildcard)).schema := .inl huntyped
      have hx : w.field (p.child (.key wildcard)) x = .clean x := field_nothing hitem.demand
      rw [fields_cons_clean hkeep (by rw [hx]; rfl), hx, ih,
        List.filter_cons_of_pos (by simp [hcontains])]
      rfl
    · have hundeclared : w.index.lookup (join p.schema key) = .undeclared := by
        by_cases hkey : key = wildcard
        · subst hkey
          refine Index.lookup_of_not_contains ?_
          simpa using hkept
        · exact Index.lookup_join_open hbuild hp hopen hkey
      have hdropped : w.index.keepsField p.schema key x = false := by
        rw [Index.keepsField, hundeclared]
      rw [fields_cons_dropped hdropped, ih, List.filter_cons_of_neg]
      simpa using hkept

end Walker

namespace Document

variable {index : Index} {d : Declarations} {options : DocumentOptions} {fs gs : Fields}

theorem cast_of_fields_clean
    (h : (Walker.mk index options.coerce options.policy).fields
      (FieldPath.parse options.location) fs = .clean gs) :
    cast index options (.object fs) = ⟨.object gs, none⟩ := by
  rw [cast, walk, Walker.object, h]
  rfl

end Document

namespace Update

variable {index : Index} {key : String} {v : Value} {op : String} {options : UpdateOptions}

theorem castOperator_pathsOnly (hop : UpdateOperator.ofName op = .pathsOnly) {fields : Fields} :
    castOperator index op (.object fields) = .ok (.object (prune index false fields)) := by
  unfold castOperator
  rw [hop]
  rfl

theorem prune_singleton_untyped {dropNullObjects : Bool}
    (h : index.lookup (resolve index key).schema = .untyped) :
    prune index dropNullObjects [(key, v)] = [(key, v)] := by
  rw [prune, List.filter_cons_of_pos (by simp [keepsName, h])]
  rfl

theorem prune_singleton_undeclared {dropNullObjects : Bool}
    (h : index.lookup (resolve index key).schema = .undeclared) :
    prune index dropNullObjects [(key, v)] = [] := by
  rw [prune, List.filter_cons_of_neg (by simp [keepsName, h])]
  rfl

variable (hop : UpdateOperator.ofName op = .fields ∨ UpdateOperator.ofName op = .pathsOnly)
include hop

theorem isOperator_of_category : isOperator op = true := by
  apply UpdateOperator.isOperator_of_name
  rcases hop with hop | hop <;> simp [hop]

theorem cast_entry_untyped (h : index.lookup (resolve index key).schema = .untyped) :
    cast index options (.object [(op, .object [(key, v)])]) =
      .ok (.object [(op, .object [(key, v)])]) := by
  rw [cast_operator (isOperator_of_category hop)]
  rcases hop with hop | hop
  · have hopen : index.IsOpen (resolve index key).schema := .inl h
    have hfield : castField index (resolve index key) v = .ok v := by
      rw [castField, Walker.field_nothing hopen.demand]
      rfl
    rw [castOperator_fields (.inl hop), castFields, prune_singleton_untyped h, castEach, hfield]
    rfl
  · rw [castOperator_pathsOnly hop, prune_singleton_untyped h]
    rfl

theorem cast_entry_undeclared (h : index.lookup (resolve index key).schema = .undeclared) :
    cast index options (.object [(op, .object [(key, v)])]) = .ok (.object [(op, .object [])]) := by
  rw [cast_operator (isOperator_of_category hop)]
  rcases hop with hop | hop
  · rw [castOperator_fields (.inl hop), castFields, prune_singleton_undeclared h]
    rfl
  · rw [castOperator_pathsOnly hop, prune_singleton_undeclared h]
    rfl

end Update

namespace Index

/-- What the casts do at and below a path that a walk of a document does not look into. -/
structure ClosedBelow (index : Index) (u : String) : Prop where
  /-- A walk keeps whatever stands there. -/
  walk : ∀ (w : Walker) (p : FieldPath) (v : Value), w.index = index → p.schema = u →
    w.field p v = .clean v
  /-- An update drops an entry that goes on below, unless it is an item declared without a type. -/
  update : ∀ (op : String) (options : UpdateOptions) (base rest : String) (v : Value),
    UpdateOperator.ofName op = .fields ∨ UpdateOperator.ofName op = .pathsOnly →
    (index.resolve .root base).schema = u →
    (index.lookup u = .array → ∀ s ∈ (segmentsOf rest).head?, isPositional s = true) →
    Update.cast index options (.object [(op, .object [(base ++ "." ++ rest, v)])]) =
      .ok (.object [(op, .object (
        if index.contains (join u wildcard) && (segmentsOf rest).length == 1 then
          [(base ++ "." ++ rest, v)]
        else []))])
  /-- A document cast there drops its fields, unless they are named like such items. -/
  located : ∀ (options : DocumentOptions) (fs : Fields),
    (FieldPath.parse options.location).schema = u →
    Document.cast index options (.object fs) = ⟨.object (fs.filter fun f =>
      index.contains (join u wildcard) && f.1 == wildcard), none⟩
  /-- Below a path without a type a document drops all its fields. -/
  below : ∀ (options : DocumentOptions) (base rest : String) (fs : Fields),
    index.lookup u = .untyped → (FieldPath.parse base).schema = u →
    options.location = base ++ "." ++ rest →
    Document.cast index options (.object fs) = ⟨.object [], none⟩

/-- Every path that a walk does not look into is closed to updates and located documents. -/
theorem closedBelow_of_open {registry : Registry} {compileOptions : CompileOptions}
    {definition : Value} {index : Index}
    (hcompile : Definition.compile registry compileOptions definition = .ok index) {u : String}
    (hopen : index.IsOpen u) : index.ClosedBelow u := by
  have hbuild := Definition.build_of_compile hcompile
  have hroot := Definition.lookup_empty_of_compile hcompile
  constructor
  · rintro w p v rfl rfl
    exact Walker.field_nothing hopen.demand
  · rintro op options base rest v hop rfl hitem
    have hlookup := lookup_resolve_below hbuild hroot hopen hitem
    split
    · rename_i hkept
      rw [if_pos hkept] at hlookup
      exact Update.cast_entry_untyped hop hlookup
    · rename_i hdropped
      rw [if_neg hdropped] at hlookup
      exact Update.cast_entry_undeclared hop hlookup
  · rintro options fs rfl
    exact Document.cast_of_fields_clean (Walker.fields_open hbuild (hopen.ne_empty hroot) hopen)
  · rintro options base rest fs huntyped rfl hlocation
    obtain ⟨hne, hleaf⟩ := leaf_of_parse_below hbuild rest (hopen.ne_empty hroot)
      (by rw [huntyped]; rfl)
    rw [← hlocation] at hne hleaf
    exact Document.cast_of_fields_clean
      (Walker.fields_of_undeclared (lookup_join_leaf hbuild hne hleaf))

/-- What a document has under `extra` is kept, and the same value set under a dotted key is not. -/
theorem closedBelow_extra :
    bands.IsOpen "extra" ∧
      Document.cast bands {} (.object [("extra", .object [("a", .bool true)])]) =
        ⟨.object [("extra", .object [("a", .bool true)])], none⟩ ∧
      Update.cast bands {} (.object [("$set", .object [("extra.a", .bool true)])]) =
        .ok (.object [("$set", .object [])]) ∧
      Document.cast bands { location := "extra" } (.object [("a", .bool true)]) =
        ⟨.object [], none⟩ := by
  have hopen : bands.IsOpen "extra" := .inl rfl
  have hclosed := closedBelow_of_open compile_bands hopen
  have hitem : bands.contains (join "extra" wildcard) = false := by decide +kernel
  have hupdate := hclosed.update "$set" {} "extra" "a" (.bool true) (.inl rfl) (by decide +kernel)
    (fun h => nomatch h)
  have hlocated := hclosed.located { location := "extra" } [("a", .bool true)] (by decide +kernel)
  rw [hitem] at hupdate hlocated
  exact ⟨hopen, by decide +kernel, hupdate, hlocated⟩

end Index

end TypedDocs
