import TypedDocs.Proofs.Cast.Aggregate
import TypedDocs.Proofs.Document.Location
import TypedDocs.Proofs.Schema.Bands

/-!
# A document cast reports exactly what does not conform

The failures of a walk that goes on after a failure are the complaints about the
value it returns, at all its locations, in both directions. The rules are the
built-in ones, because a rule may otherwise convert a value out of its own type.
The index need not come from a definition.
-/

namespace TypedDocs

open Location

/-- The error recorded at an instance key. -/
def Outcome.error? (o : Outcome) (path : String) : Option CastError :=
  o.errors.bind fun errors => errors.get? path

namespace Document

theorem error?_cast {index : Index} {options : DocumentOptions} {v : Value} (path : String) :
    (cast index options v).error? path =
      (CastErrors.ofRows (walk index options v).failures).get? path :=
  CastErrors.toOption_bind_get? _ path

theorem mem_failures_of_error? {index : Index} {options : DocumentOptions} {v : Value}
    {path : String} {e : CastError} (h : (cast index options v).error? path = some e) :
    (path, e) ∈ (walk index options v).failures := by
  rw [error?_cast] at h
  rcases Dictionary.get?_insertAll_some h with hmem | hempty
  · exact hmem
  · cases hempty

theorem exists_error?_of_errors {index : Index} {options : DocumentOptions} {v : Value}
    {errors : CastErrors} (h : (cast index options v).errors = some errors) :
    ∃ path e, (cast index options v).error? path = some e := by
  have htoOption : (CastErrors.ofRows (walk index options v).failures).toOption = some errors := h
  unfold CastErrors.toOption CastErrors.hasError at htoOption
  split at htoOption
  · rename_i hrows
    cases htoOption
    cases hbindings : (CastErrors.ofRows (walk index options v).failures).bindings with
    | nil => simp [Dictionary.isEmpty, hbindings] at hrows
    | cons b rest =>
      refine ⟨b.1, b.2, ?_⟩
      rw [error?_cast, Dictionary.get?_eq_some_iff, hbindings]
      exact List.mem_cons_self
  · cases htoOption

theorem isSome_error?_of_mem {index : Index} {options : DocumentOptions} {v : Value}
    {path : String} {e : CastError} (h : (path, e) ∈ (walk index options v).failures) :
    ((cast index options v).error? path).isSome = true := by
  rw [error?_cast]
  exact Dictionary.isSome_get?_insertAll (.inr ⟨e, h⟩)

end Document

namespace Walker

/-- The walk that converts leaves and goes on after a failure. -/
abbrev thorough (index : Index) : Walker := caster index .accumulate

section Audits

variable {index : Index} {p : FieldPath} {site : Site} {v : Value}

theorem not_step_of_rest {l : Location} (hi : l.demand index ≠ .items)
    (ho : l.demand index = .object → l.value.isObject = false) (c : Location) :
    ¬ Step index l c := by
  intro h
  cases h with
  | field hd hv _ => simp [hv, Value.isObject] at ho; exact ho hd
  | item hd _ _ => exact hi hd

theorem tidy_of_rest {l : Location} (hi : l.demand index ≠ .items)
    (ho : l.demand index = .object → l.value.isObject = false) : l.Tidy index where
  declared hd fs hv := by simp [hv, Value.isObject] at ho; exact absurd hd ho
  no_null_object hd fs hv := by simp [hv, Value.isObject] at ho; exact absurd hd ho
  items hd := absurd hd hi

/-- At rest, and not on an object where one is asked for, the audit is that of a single location. -/
theorem audited_rest {l : Location} {failures : List Failure} (hi : l.demand index ≠ .items)
    (ho : l.demand index = .object → l.value.isObject = false)
    (hf : failures = (l.failure? index).toList) : Audited index {l} failures := by
  rw [hf]
  exact audited_leaf (not_step_of_rest hi ho) (tidy_of_rest hi ho)

theorem field_audited_nothing (hsite : site ≠ .document) (hd : index.demand p = .nothing) :
    Audited index {⟨site, p, ((thorough index).field p v).value⟩}
      ((thorough index).field p v).failures := by
  rw [field_nothing (w := thorough index) hd]
  have hd' : Location.demand index ⟨site, p, v⟩ = .nothing := (demand_of_site hsite).trans hd
  refine audited_rest (by simp [Walked.clean, hd']) (by simp [Walked.clean, hd']) ?_
  simp [Walked.clean, failure?, complaint?, hd']

theorem field_audited_scalar (hb : index.HasBuiltinRules) (hsite : site ≠ .document)
    {t : ScalarType} (hd : index.demand p = .scalar t) :
    Audited index {⟨site, p, ((thorough index).field p v).value⟩}
      ((thorough index).field p v).failures := by
  have ht : t.Lawful := hb.lawful (Index.demand_eq_scalar_iff.1 hd)
  have hd' : ∀ u, Location.demand index ⟨site, p, u⟩ = .scalar t := fun u =>
    (demand_of_site hsite).trans hd
  rw [field_scalar (w := thorough index) hd]
  refine audited_rest (by simp [hd']) (by simp [hd']) ?_
  cases hc : t.coerce v with
  | ok u =>
    have hu := ht.accepts_of_coerce hc
    simp [leaf, caster, hc, Walked.clean, failure?, complaint?, hd', hu]
  | error e =>
    have hv := ScalarType.not_accepts_of_error hc
    have he := ht.error_of_coerce hc
    simp [leaf, caster, hc, Walked.failed, failure?, complaint?, hd', hv, he]

/-- Where an object is asked for, any other value is reported and kept. -/
theorem audited_misshapen {l : Location} (hd : l.demand index = .object)
    (hobject : l.value.isObject = false) (hnull : l.site = .item → l.value.isNull = false) :
    Audited index {l} [(l.path.instanceKey, .ofShape l.value objectName)] := by
  refine audited_rest (by simp [hd]) (fun _ => hobject) ?_
  have hitem : ¬ (l.site = .item ∧ l.value.isNull = true) := by
    rintro ⟨hs, hn⟩
    simp [hnull hs] at hn
  simp [failure?, complaint?, hd, hobject, hitem]

theorem audited_array (hsite : site ≠ .document) (hd : index.demand p = .items)
    {xs : List Value} {failures : List Failure}
    (h : Audited index (ofItems p 0 xs) failures) :
    Audited index {⟨site, p, .array xs⟩} failures := by
  have hd' : Location.demand index ⟨site, p, .array xs⟩ = .items := (demand_of_site hsite).trans hd
  refine audited_node (by simp [complaint?, hd']) ?_ ?_
  · exact ⟨fun ho => by simp [hd'] at ho, fun ho => by simp [hd'] at ho, fun _ => .inr ⟨xs, rfl⟩⟩
  · rwa [step_iff_of_items hd' rfl]

/-- The fields of an object are declared, and none of them is a null object. -/
def FieldsKept (index : Index) (p : FieldPath) (fs : Fields) : Prop :=
  ∀ f ∈ fs, index.contains (p.child (.key f.1)).schema = true ∧
    (index.lookup (p.child (.key f.1)).schema = .object → f.2 ≠ .null)

theorem audited_object {l : Location} (hd : l.demand index = .object) {fs : Fields}
    (hv : l.value = .object fs) (hkept : FieldsKept index l.path fs) {failures : List Failure}
    (h : Audited index (ofFields l.path fs) failures) : Audited index {l} failures := by
  refine audited_node (by simp [complaint?, hd, hv, Value.isObject]) ?_ ?_
  · refine ⟨fun _ gs hgs f hf => ?_, fun _ gs hgs f hf => ?_, fun hi => by simp [hd] at hi⟩
    · rw [hv] at hgs
      cases hgs
      exact (hkept f hf).1
    · rw [hv] at hgs
      cases hgs
      exact (hkept f hf).2
  · rwa [step_iff_of_object hd hv]

theorem keepsField_iff {base key : String} :
    index.keepsField base key v = true ↔ index.contains (join base key) = true ∧
      (index.lookup (join base key) = .object → v.isNull = false) := by
  rw [Index.contains_iff]
  unfold Index.keepsField
  cases index.lookup (join base key) <;> simp [Lookup.isUndeclared]

theorem fields_kept (fs : Fields) :
    FieldsKept index p ((thorough index).fields p fs).value := by
  induction fs with
  | nil => intro f hf; cases hf
  | cons first fs ih =>
    obtain ⟨key, x⟩ := first
    cases hkeep : index.keepsField p.schema key x with
    | false => rwa [fields_cons_dropped (w := thorough index) hkeep]
    | true =>
      obtain ⟨hcontains, hnull⟩ := keepsField_iff.1 hkeep
      rw [fields_cons (w := thorough index) hkeep (stops_of_accumulate rfl)]
      intro f hf
      rcases List.mem_cons.1 hf with rfl | hf
      · refine ⟨hcontains, fun hobject => ?_⟩
        have hd : index.demand (p.child (.key key)) = .object :=
          Index.demand_eq_object_iff.2 hobject
        exact Value.ne_null (isNull_field_of_object (w := thorough index) hd (hnull hobject))
      · exact ih f hf

theorem field_audited_null (hb : index.HasBuiltinRules) (hsite : site ≠ .document)
    (hitem : site = .item ∨ index.demand p ≠ .object) :
    Audited index {⟨site, p, ((thorough index).field p .null).value⟩}
      ((thorough index).field p .null).failures := by
  cases hd : index.demand p with
  | nothing => exact field_audited_nothing hsite hd
  | scalar t => exact field_audited_scalar hb hsite hd
  | object =>
    have hsite' : site = .item := hitem.resolve_right fun h => h hd
    subst hsite'
    have hd' : Location.demand index ⟨.item, p, .null⟩ = .object := hd
    refine audited_rest (by simp [field_null, Walked.clean, hd']) (fun _ => rfl) ?_
    simp [field_null, Walked.clean, failure?, complaint?, hd', Value.isNull]
  | items =>
    have hd' : Location.demand index ⟨site, p, .null⟩ = .items := (demand_of_site hsite).trans hd
    rw [field_null]
    have hleaf : ∀ c, ¬ Step index ⟨site, p, .null⟩ c := by
      intro c h
      cases h with
      | field _ hv _ => cases hv
      | item _ hv _ => cases hv
    have hnone : Location.failure? index ⟨site, p, .null⟩ = none := by
      simp [failure?, complaint?, hd']
    have hleafAudit := audited_leaf hleaf
      ⟨fun ho => by simp [hd'] at ho, fun ho => by simp [hd'] at ho, fun _ => .inl rfl⟩
    rwa [hnone] at hleafAudit

end Audits

/-- A walk of a location leaves a value whose complaints are the failures of the walk. -/
theorem audited {index : Index} (hb : index.HasBuiltinRules) :
    Cases index
      (fun v p => ∀ site, site ≠ .document →
        (v.isNull = true → site = .item ∨ index.demand p ≠ .object) →
        Audited index {⟨site, p, ((thorough index).field p v).value⟩}
          ((thorough index).field p v).failures)
      (fun xs p i => Audited index (ofItems p i ((thorough index).items p i xs).value)
        ((thorough index).items p i xs).failures)
      (fun fs p => Audited index (ofFields p ((thorough index).fields p fs).value)
        ((thorough index).fields p fs).failures) where
  null _ _ hsite hitem := field_audited_null hb hsite (hitem rfl)
  array hd h site hsite _ := by
    rw [field_items (w := thorough index) hd]
    exact audited_array hsite hd h
  promoted {v p} hd hnull harray h site hsite _ := by
    have hitem := (h .item (by simp) fun hnull' => by rw [hnull] at hnull'; cases hnull').union
      audited_empty
    rw [List.append_nil] at hitem
    rw [field_promoted (w := thorough index) hd hnull harray]
    exact audited_array hsite hd hitem
  object hd h site hsite _ := by
    rw [field_object (w := thorough index) hd rfl]
    exact audited_object ((demand_of_site hsite).trans hd) rfl (fields_kept _) h
  misshapen hd hnull hobject site hsite _ := by
    rw [field_misshapen (w := thorough index) hd hnull hobject]
    exact audited_misshapen ((demand_of_site hsite).trans hd) hobject fun _ => hnull
  atom {v p} hi ho _ site hsite _ := by
    cases hd : index.demand p with
    | items => exact absurd hd hi
    | object => exact absurd hd ho
    | nothing => exact field_audited_nothing hsite hd
    | scalar t => exact field_audited_scalar hb hsite hd
  noItems _ _ := audited_empty
  item hx hxs := by
    rw [items_cons (w := thorough index) (stops_of_accumulate rfl)]
    exact (hx .item (by simp) fun _ => .inl rfl).union hxs
  noFields _ := audited_empty
  kept hkeep hx hfs := by
    rw [fields_cons (w := thorough index) hkeep (stops_of_accumulate rfl)]
    refine (hx .field (by simp) fun hnull => .inr fun hd => ?_).union hfs
    have hkept := (keepsField_iff.1 hkeep).2 (Index.demand_eq_object_iff.1 hd)
    rw [hnull] at hkept
    cases hkept
  dropped hkeep hfs := by
    rw [fields_cons_dropped (w := thorough index) hkeep]
    exact hfs

end Walker

namespace Document

open Walker

/-- The audit of a whole document, which has to be an object and is not null in place of one. -/
theorem walk_audited {index : Index} (hb : index.HasBuiltinRules) (location : String) (d : Value) :
    Audited index {⟨.document, FieldPath.parse location, (walk index { location } d).value⟩}
      (walk index { location } d).failures := by
  have hwalk : walk index { location } d =
      (thorough index).object (FieldPath.parse location) d := rfl
  rw [hwalk]
  cases d with
  | object fs => exact audited_object rfl rfl (fields_kept fs) ((audited hb).fields fs _)
  | _ => exact audited_misshapen rfl rfl (by simp)

/-- The recorded paths are those of the locations with a complaint about the returned value, each
error is the complaint at a location of its path, and all locations are tidy. -/
theorem errors_are_complaints {index : Index} (hb : index.HasBuiltinRules) (location : String)
    (d : Value) :
    let outcome := cast index { policy := .accumulate, coerce := true, location := location } d
    let root : Location := ⟨.document, FieldPath.parse location, outcome.value⟩
    (∀ path, (outcome.error? path).isSome = true ↔
      ∃ l, Below index root l ∧ l.path.instanceKey = path ∧
        (l.complaint? index).isSome = true) ∧
    (∀ path e, outcome.error? path = some e →
      ∃ l, Below index root l ∧ l.path.instanceKey = path ∧ l.complaint? index = some e) ∧
    (outcome.errors = none ↔ ∀ l, Below index root l → l.complaint? index = none) ∧
    ∀ l, Below index root l → l.Tidy index := by
  intro outcome root
  have haudit := walk_audited hb location d
  have hfailure : ∀ path e, (path, e) ∈ (walk index { location } d).failures ↔
      ∃ l, Below index root l ∧ l.path.instanceKey = path ∧ l.complaint? index = some e := by
    intro path e
    rw [haudit.failures_iff]
    constructor
    · rintro ⟨_, rfl, l, hl, hf⟩
      obtain ⟨_, hc, heq⟩ := Option.map_eq_some_iff.1 hf
      cases heq
      exact ⟨l, hl, rfl, hc⟩
    · rintro ⟨l, hl, rfl, hc⟩
      exact ⟨_, rfl, l, hl, by simp [failure?, hc]⟩
  have herror : ∀ path e, outcome.error? path = some e →
      ∃ l, Below index root l ∧ l.path.instanceKey = path ∧ l.complaint? index = some e :=
    fun path e h => (hfailure path e).1 (mem_failures_of_error? h)
  have hrecorded : ∀ l e, Below index root l → l.complaint? index = some e →
      (outcome.error? l.path.instanceKey).isSome = true := fun l e hl hc =>
    isSome_error?_of_mem ((hfailure _ e).2 ⟨l, hl, rfl, hc⟩)
  refine ⟨fun path => ⟨fun h => ?_, ?_⟩, herror, ⟨fun h l hl => ?_, fun h => ?_⟩,
    haudit.tidy root rfl⟩
  · obtain ⟨e, he⟩ := Option.isSome_iff_exists.1 h
    obtain ⟨l, hl, hpath, hc⟩ := herror path e he
    exact ⟨l, hl, hpath, by simp [hc]⟩
  · rintro ⟨l, hl, rfl, hc⟩
    obtain ⟨e, he⟩ := Option.isSome_iff_exists.1 hc
    exact hrecorded l e hl he
  · cases hc : l.complaint? index with
    | none => rfl
    | some e =>
      have hsome := hrecorded l e hl hc
      simp [Outcome.error?, h] at hsome
  · cases herrors : outcome.errors with
    | none => rfl
    | some errors =>
      obtain ⟨path, e, hfound⟩ := exists_error?_of_errors herrors
      obtain ⟨l, hl, -, hc⟩ := herror path e hfound
      rw [h l hl] at hc
      cases hc

/-- A band whose first member is a text: the text is found in the cast band, and complained of. -/
theorem errors_are_complaints_bands :
    bands.HasBuiltinRules ∧
      ∃ l, Below bands ⟨.document, FieldPath.parse "", (cast bands {} (.object [("members",
          .array [.string "Axl Rose", .object [("born", .string "1962")]])])).value⟩ l ∧
        l.path.instanceKey = "members.0" ∧
        l.complaint? bands = some (.shapeMismatch "'Axl Rose'" "Object") :=
  ⟨bands_hasBuiltinRules, (errors_are_complaints bands_hasBuiltinRules "" _).2.1 "members.0" _
    (by decide +kernel)⟩

end Document

end TypedDocs
