import TypedDocs.Proofs.Cast.Chain
import TypedDocs.Proofs.Document.FirstFailure
import TypedDocs.Proofs.Operator
import TypedDocs.Proofs.Schema.Bands
import TypedDocs.Proofs.Schema.Follow
import TypedDocs.Update

/-!
# Dotted keys of an update are nested documents

A field update casts the value under a dotted key where the key leads. The same value
can be put into a document of its own, under the names of the key one inside the
other. Both casts find the same value in the end, or stop with the same error. The
proper prefixes of the key have to be declared as objects.
-/

namespace TypedDocs

/-- A value under a list of names, one object inside the other. -/
def Value.nest : List String → Value → Value
  | [], v => v
  | s :: rest, v => .object [(s, nest rest v)]

/-- The value found by following names from object to object. -/
def Value.valueAt : List String → Value → Option Value
  | [], v => some v
  | s :: rest, .object fs => (Fields.get? fs s).bind (valueAt rest)
  | _ :: _, _ => none

open Value

theorem valueAt_nest (segments : List String) (v : Value) :
    (nest segments v).valueAt segments = some v := by
  induction segments with
  | nil => rfl
  | cons s rest ih => simpa [nest, valueAt, Fields.get?] using ih

/-- Whether a value may stand at a location: it is declared, and not for an object that is null. -/
def Index.keepsAt (index : Index) (p : FieldPath) (v : Value) : Bool :=
  match index.lookup p.schema with
  | .undeclared => false
  | .object => !v.isNull
  | _ => true

namespace Walker

variable {w : Walker} {p : FieldPath} {s : String} {rest : List String} {v x : Value}

/-- An object on the way to a nested value is walked through. -/
theorem fields_through (h : w.index.lookup (join p.schema s) = .object) {fs : Fields} :
    w.fields p [(s, .object fs)] =
      (w.fields (p.child (.key s)) fs).map fun gs => [(s, .object gs)] := by
  have hkeep : w.index.keepsField p.schema s (.object fs) = true := by
    simp [Index.keepsField, h, isNull]
  have hd : w.index.demand (p.child (.key s)) = .object := Index.demand_eq_object_iff.2 h
  rw [fields_singleton hkeep, field_object hd rfl]
  rfl

/-- A nested value that may stand where it is nested is cast there. -/
theorem fields_nest (hobjects : w.index.ObjectsAlong p.schema (s :: rest))
    (hkeep : w.index.keepsAt (p.descend (s :: rest)) v = true) :
    w.fields p [(s, nest rest v)] =
      (w.field (p.descend (s :: rest)) v).map fun y => [(s, nest rest y)] := by
  induction rest generalizing p s with
  | nil => exact fields_singleton hkeep
  | cons t rest ih =>
    rw [nest, fields_through (hobjects.head (by simp)), ih hobjects.tail hkeep]
    rfl

/-- Otherwise it is dropped, and nothing is found there. -/
theorem fields_nest_dropped (hobjects : w.index.ObjectsAlong p.schema (s :: rest))
    (hdrop : w.index.keepsAt (p.descend (s :: rest)) v = false) :
    ∃ fs, w.fields p [(s, nest rest v)] = .clean fs ∧
      (Value.object fs).valueAt (s :: rest) = none := by
  induction rest generalizing p s with
  | nil =>
    have hdropped : w.index.keepsField p.schema s v = false := hdrop
    refine ⟨[], ?_, rfl⟩
    rw [nest, fields_cons_dropped hdropped]
    rfl
  | cons t rest ih =>
    obtain ⟨fs, hfs, hnone⟩ := ih hobjects.tail hdrop
    refine ⟨[(s, .object fs)], ?_, ?_⟩
    · rw [nest, fields_through (hobjects.head (by simp)), hfs]
      rfl
    · simpa [valueAt, Fields.get?] using hnone

end Walker

/-- A dotted key of plain names whose proper prefixes are all declared as objects. -/
structure Index.IsFieldKey (index : Index) (key : String) : Prop where
  nonempty : ∀ s ∈ segmentsOf key, s ≠ ""
  names : ∀ s ∈ segmentsOf key, isPositional s = false
  plain : ∀ s ∈ (segmentsOf key).head?, isOperator s = false
  objects : ∀ ⦃before after : List String⦄, segmentsOf key = before ++ after → before ≠ [] →
    after ≠ [] → index.lookup (String.intercalate "." before) = .object

namespace Index.IsFieldKey

variable {index : Index} {key : String}

theorem objectsAlong (h : index.IsFieldKey key) : index.ObjectsAlong "" (segmentsOf key) := by
  intro before after hsplit hbefore hafter
  have hnonempty : ∀ s ∈ before, s ≠ "" := fun s hs =>
    h.nonempty s (by rw [hsplit]; exact List.mem_append_left _ hs)
  rw [foldl_join hnonempty]
  exact h.objects hsplit hbefore hafter

theorem not_operator (h : index.IsFieldKey key) : isOperator key = false := by
  obtain ⟨s, rest, hsegments⟩ := exists_segments key
  have hs : s ∈ segmentsOf key := by
    rw [hsegments]
    exact List.mem_cons_self
  rw [isOperator_of_segments hsegments (h.nonempty s hs)]
  exact h.plain s (by rw [hsegments]; rfl)

theorem resolve_eq (h : index.IsFieldKey key) (hroot : index.lookup "" = .undeclared) :
    index.resolve .root key = FieldPath.root.descend (segmentsOf key) :=
  resolve_names h.names (by rw [show FieldPath.root.schema = "" from rfl, hroot]; rfl)
    h.objectsAlong

end Index.IsFieldKey

namespace Update

/-- The fail-fast cast of the document in which an entry stands under the names of its key. -/
def castNested (index : Index) (entry : String × Value) : Outcome :=
  Document.cast index { policy := .failFast } (nest (segmentsOf entry.1) entry.2)

/-- What is left of an entry in the cast of its document. -/
def survivor? (index : Index) (entry : String × Value) : Option (String × Value) :=
  ((castNested index entry).value.valueAt (segmentsOf entry.1)).map fun w => (entry.1, w)

/-- The result of casting all entries as documents of their own, in order, up to the first that
fails. -/
structure IsNestedCast (index : Index) (entries : Fields) (r : Except CastError Fields) : Prop where
  ok_iff : (∃ gs, r = .ok gs) ↔ ∀ entry ∈ entries, (castNested index entry).errors = none
  survivors : ∀ gs, r = .ok gs → gs = entries.filterMap (survivor? index)
  first_error : ∀ e, r = .error e → ∃ before entry after path,
    entries = before ++ entry :: after ∧
    (∀ earlier ∈ before, (castNested index earlier).errors = none) ∧
    (castNested index entry).errors.map Dictionary.bindings = some [(path, e)]

section Entries

variable {index : Index} {key : String} {v : Value}

theorem keepsName_eq : keepsName index true key v = index.keepsAt (resolve index key) v := by
  unfold keepsName Index.keepsAt
  cases index.lookup (resolve index key).schema <;> simp

theorem castFields_cons_kept {fields : Fields} (h : index.keepsAt (resolve index key) v = true) :
    castFields index ((key, v) :: fields) = (castField index (resolve index key) v).bind fun w =>
      (castFields index fields).map fun gs => (key, w) :: gs := by
  rw [castFields, prune, List.filter_cons_of_pos (by rw [keepsName_eq]; exact h), castEach]
  rfl

theorem castFields_cons_dropped {fields : Fields}
    (h : index.keepsAt (resolve index key) v = false) :
    castFields index ((key, v) :: fields) = castFields index fields := by
  rw [castFields, prune, List.filter_cons_of_neg (by rw [keepsName_eq, h]; simp)]
  rfl

/-- What becomes of an entry: it is dropped, cast, or stops the cast. -/
inductive EntryCast (index : Index) (key : String) (v : Value) : Prop
  | dropped : index.keepsAt (resolve index key) v = false →
      (castNested index (key, v)).errors = none → survivor? index (key, v) = none →
      EntryCast index key v
  | cast {w : Value} : index.keepsAt (resolve index key) v = true →
      castField index (resolve index key) v = .ok w →
      (castNested index (key, v)).errors = none → survivor? index (key, v) = some (key, w) →
      EntryCast index key v
  | stopped {e : CastError} {path : String} : index.keepsAt (resolve index key) v = true →
      castField index (resolve index key) v = .error e →
      (castNested index (key, v)).errors.map Dictionary.bindings = some [(path, e)] →
      EntryCast index key v

theorem castNested_eq {s : String} {rest : List String} {r : Walked Fields}
    (hsegments : segmentsOf key = s :: rest)
    (h : (Walker.caster index .failFast).fields .root [(s, nest rest v)] = r) :
    castNested index (key, v) = ⟨.object r.value, (CastErrors.ofRows r.failures).toOption⟩ := by
  subst h
  rw [castNested, hsegments]
  rfl

theorem entryCast_of_isFieldKey (hroot : index.lookup "" = .undeclared)
    (hkey : index.IsFieldKey key) : EntryCast index key v := by
  obtain ⟨s, rest, hsegments⟩ := exists_segments key
  have hresolve : resolve index key = FieldPath.root.descend (s :: rest) := by
    rw [← hsegments]
    exact hkey.resolve_eq hroot
  have hobjects : index.ObjectsAlong FieldPath.root.schema (s :: rest) := by
    rw [← hsegments]
    exact hkey.objectsAlong
  cases hkeep : index.keepsAt (resolve index key) v with
  | false =>
    obtain ⟨fs, hfs, hnone⟩ := Walker.fields_nest_dropped (w := Walker.caster index .failFast)
      hobjects (hresolve ▸ hkeep)
    have hnested := castNested_eq hsegments hfs
    refine .dropped hkeep ?_ ?_
    · rw [hnested]
      rfl
    · rw [survivor?, hnested, hsegments]
      simp only [Walked.clean, hnone, Option.map_none]
  | true =>
    have hfields := Walker.fields_nest (w := Walker.caster index .failFast) hobjects
      (hresolve ▸ hkeep)
    rw [← hresolve] at hfields
    have hnested := castNested_eq hsegments hfields
    have hshort :
        ((Walker.caster index .failFast).field (resolve index key) v).failures.length ≤ 1 :=
      ((Walker.stopsAtFirst (Walker.caster index .failFast)).field v
        (resolve index key)).first_short
    have hcast : castField index (resolve index key) v =
        ((Walker.caster index .failFast).field (resolve index key) v).toExcept := rfl
    -- From here on it only matters that the walk at the resolved location fails once at most.
    generalize (Walker.caster index .failFast).field (resolve index key) v = r
      at hnested hshort hcast
    obtain ⟨w, failures⟩ := r
    cases failures with
    | nil =>
      refine .cast hkeep hcast ?_ ?_
      · rw [hnested]
        rfl
      · rw [survivor?, hnested, hsegments]
        exact congrArg (Option.map fun w => (key, w)) (valueAt_nest (s :: rest) w)
    | cons f rest =>
      obtain ⟨path, e⟩ := f
      have hrest : rest.length = 0 := Nat.le_zero.1 (Nat.le_of_succ_le_succ hshort)
      obtain rfl := List.length_eq_zero_iff.1 hrest
      have herror : (castNested index (key, v)).errors.map Dictionary.bindings =
          some [(path, e)] := by
        rw [hnested]
        rfl
      exact .stopped hkeep hcast herror

end Entries

namespace IsNestedCast

variable {index : Index} {first : String × Value} {entries : Fields}
  {r : Except CastError Fields}

/-- An entry whose document is cast puts what is left of it in front. -/
theorem cons_clean (hclean : (castNested index first).errors = none)
    (h : IsNestedCast index entries r) :
    IsNestedCast index (first :: entries)
      (r.map fun gs => (survivor? index first).toList ++ gs) where
  ok_iff := by
    have hr := h.ok_iff
    simp only [List.forall_mem_cons, hclean, true_and, ← hr]
    constructor
    · rintro ⟨gs, hgs⟩
      obtain ⟨rest, hrest, -⟩ := Except.map_eq_ok_iff.1 hgs
      exact ⟨rest, hrest⟩
    · rintro ⟨rest, hrest⟩
      rw [hrest]
      exact ⟨_, rfl⟩
  survivors gs hgs := by
    obtain ⟨rest, hrest, rfl⟩ := Except.map_eq_ok_iff.1 hgs
    rw [h.survivors rest hrest, List.filterMap_cons]
    cases survivor? index first <;> rfl
  first_error e he := by
    obtain ⟨before, entry, after, path, heq, hbefore, herror⟩ :=
      h.first_error e (Except.map_eq_error_iff.1 he)
    refine ⟨first :: before, entry, after, path, by rw [heq]; rfl, ?_, herror⟩
    intro earlier hearlier
    rcases List.mem_cons.1 hearlier with rfl | hearlier
    · exact hclean
    · exact hbefore earlier hearlier

/-- An entry whose document is not cast ends the cast. -/
theorem cons_failed {e : CastError} {path : String}
    (herror : (castNested index first).errors.map Dictionary.bindings = some [(path, e)]) :
    IsNestedCast index (first :: entries) (.error e) where
  ok_iff := by
    constructor
    · rintro ⟨gs, hgs⟩
      cases hgs
    · intro hall
      rw [hall first List.mem_cons_self] at herror
      cases herror
  survivors gs hgs := by cases hgs
  first_error e' he := by
    cases he
    exact ⟨[], first, entries, path, rfl, by simp, herror⟩

end IsNestedCast

/-- The fields of an operand are cast as documents of their own. -/
theorem castFields_isNestedCast {index : Index} (hroot : index.lookup "" = .undeclared)
    {fields : Fields} (hkeys : ∀ f ∈ fields, index.IsFieldKey f.1) :
    IsNestedCast index fields (castFields index fields) := by
  induction fields with
  | nil =>
    have hnil : castFields index [] = .ok [] := rfl
    rw [hnil]
    exact ⟨by simp, fun gs h => by cases h; rfl, fun e h => by cases h⟩
  | cons first fields ih =>
    obtain ⟨key, v⟩ := first
    have hfirst : EntryCast index key v :=
      entryCast_of_isFieldKey hroot (hkeys _ List.mem_cons_self)
    have hrest := ih fun f hf => hkeys f (List.mem_cons_of_mem _ hf)
    cases hfirst with
    | dropped hkeep hclean hnone =>
      have hcons := hrest.cons_clean hclean
      rw [hnone, Option.toList_none] at hcons
      rw [castFields_cons_dropped hkeep]
      rwa [show (fun gs : Fields => [] ++ gs) = id from rfl, Except.map_id] at hcons
    | cast hkeep hcast hclean hsome =>
      have hcons := hrest.cons_clean hclean
      rw [hsome, Option.toList_some] at hcons
      rw [castFields_cons_kept hkeep, hcast]
      exact hcons
    | stopped hkeep hcast herror =>
      rw [castFields_cons_kept hkeep, hcast]
      exact .cons_failed herror

section Forms

variable {index : Index} {options : UpdateOptions} {fields : Fields}

theorem castEach_cons {f : String → Value → Except CastError Value} {key : String} {v : Value} :
    castEach f ((key, v) :: fields) =
      (f key v).bind fun w => (castEach f fields).map fun gs => (key, w) :: gs := rfl

/-- An object of operators is cast operator by operator. -/
theorem cast_operators (hops : ∀ f ∈ fields, isOperator f.1 = true) :
    cast index options (.object fields) =
      (castEach (castOperator index) fields).map .object := by
  have hnone : fields.find? (!isOperator ·.1) = none :=
    List.find?_eq_none.2 fun f hf => by simp [hops f hf]
  cases fields with
  | nil => rfl
  | cons first rest =>
    have hfind : (first :: rest).find? (isOperator ·.1) = some first :=
      List.find?_cons_of_pos (hops first List.mem_cons_self)
    rw [cast, hfind, hnone]

theorem cast_operator {op : String} (hop : isOperator op = true) {operand : Value} :
    cast index options (.object [(op, operand)]) =
      (castOperator index op operand).map fun w => .object [(op, w)] := by
  rw [cast_operators (List.forall_mem_singleton.2 hop), castEach_cons]
  cases castOperator index op operand <;> rfl

/-- Operators that set fields and those that remove lists cast the fields of their operand. -/
theorem castOperator_fields {op : String}
    (hop : UpdateOperator.ofName op = .fields ∨ UpdateOperator.ofName op = .pullAll) :
    castOperator index op (.object fields) = (castFields index fields).map .object := by
  unfold castOperator
  rcases hop with hop | hop
  · rw [hop]
    rfl
  · rw [hop]
    rfl

/-- An object of fields sets them, unless it replaces the document. -/
theorem cast_fields (hne : fields ≠ []) (hplain : ∀ f ∈ fields, isOperator f.1 = false) :
    cast index options (.object fields) = (castFields index fields).map fun gs =>
      if options.overwrite then .object gs else .object [("$set", .object gs)] := by
  have hnone : fields.find? (isOperator ·.1) = none :=
    List.find?_eq_none.2 fun f hf => by simp [hplain f hf]
  obtain ⟨first, rest, rfl⟩ := List.exists_cons_of_ne_nil hne
  have hfind : (first :: rest).find? (!isOperator ·.1) = some first :=
    List.find?_cons_of_pos (by simp [hplain first List.mem_cons_self])
  rw [cast, hnone, hfind]
  cases castFields index (first :: rest) with
  | error e => rfl
  | ok gs =>
    obtain ⟨overwrite⟩ := options
    cases overwrite <;> rfl

end Forms

/-- Every form of a field update makes of its entries what their own documents are cast to, and
stops with the error of the first document that is not cast. -/
theorem cast_fields_nested {registry : Registry} {compileOptions : CompileOptions}
    {definition : Value} {index : Index}
    (hcompile : Definition.compile registry compileOptions definition = .ok index)
    {fields : Fields} (hkeys : ∀ f ∈ fields, index.IsFieldKey f.1) :
    ∃ r, IsNestedCast index fields r ∧
      (∀ op options, UpdateOperator.ofName op = .fields ∨ UpdateOperator.ofName op = .pullAll →
        cast index options (.object [(op, .object fields)]) =
          r.map fun gs => .object [(op, .object gs)]) ∧
      (fields ≠ [] → ∀ overwrite, cast index { overwrite := overwrite } (.object fields) =
        r.map fun gs => if overwrite then .object gs else .object [("$set", .object gs)]) := by
  have hroot := Definition.lookup_empty_of_compile hcompile
  refine ⟨castFields index fields, castFields_isNestedCast hroot hkeys, ?_, ?_⟩
  · intro op options hop
    have hoperator : isOperator op = true := by
      apply UpdateOperator.isOperator_of_name
      rcases hop with hop | hop <;> simp [hop]
    rw [cast_operator hoperator, castOperator_fields hop, Except.map_map]
  · intro hne overwrite
    exact cast_fields hne fun f hf => (hkeys f hf).not_operator

theorem bands_isFieldKey : bands.IsFieldKey "name.first" where
  nonempty := by decide
  names := by decide
  plain := by decide
  objects before after hsplit hbefore hafter := by
    have hsegments : segmentsOf "name.first" = ["name", "first"] := rfl
    rw [hsegments] at hsplit
    obtain ⟨s, rest, rfl⟩ := List.exists_cons_of_ne_nil hbefore
    obtain ⟨t, later, rfl⟩ := List.exists_cons_of_ne_nil hafter
    have hlength := congrArg List.length hsplit
    simp only [List.length_cons, List.length_append, List.length_nil] at hlength
    have hrest : rest = [] := List.length_eq_zero_iff.1 (by omega)
    subst hrest
    simp only [List.cons_append, List.nil_append, List.cons.injEq] at hsplit
    rw [← hsplit.1]
    rfl

/-- A flag set as a first name is made the text that a first name is in a document. -/
theorem cast_fields_nested_bands :
    bands.IsFieldKey "name.first" ∧
      cast bands {} (.object [("$set", .object [("name.first", .bool true)])]) =
        .ok (.object [("$set", .object [("name.first", .string "true")])]) := by
  obtain ⟨r, hr, hoperator, -⟩ := cast_fields_nested compile_bands
    (List.forall_mem_singleton.2 bands_isFieldKey :
      ∀ f ∈ ([("name.first", .bool true)] : Fields), bands.IsFieldKey f.1)
  obtain ⟨gs, hgs⟩ := hr.ok_iff.2 (by decide +kernel)
  have hsurvivors : gs = [("name.first", .string "true")] :=
    (hr.survivors gs hgs).trans (by decide +kernel)
  refine ⟨bands_isFieldKey, ?_⟩
  rw [hoperator "$set" {} (.inl rfl), hgs, hsurvivors]
  rfl

end Update

end TypedDocs
