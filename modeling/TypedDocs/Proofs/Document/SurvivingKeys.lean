import TypedDocs.Proofs.Document.Change
import TypedDocs.Proofs.Document.Policies

/-!
# The names that survive a document cast

A field stays if its name joins with the path of its object to a declared path, and the
name may hold points. So what is certain of a name that survives is that its first
segment is a field the definition names there; a name without points is such a field
itself. Points of the document also let two locations share one key of the aggregate,
and only without them is every failure recorded.
-/

namespace TypedDocs

namespace Change

variable {index : Index} {w : Walker} {convert : Bool} {c c' : Change} {m : Location}

/-- The location as the cast leaves it. -/
def result (c : Change) : Location := ⟨c.site, c.path, c.after⟩

theorem Faithful.of_object_after (h : c.Faithful index convert)
    (hobject : c.demand index = .object) {gs : Fields} (hgs : c.after = .object gs) :
    ∃ fs, c.before = .object fs ∧
      gs.map Prod.fst = (fs.filter (index.stays c.path.schema)).map Prod.fst := by
  cases hbefore : c.before.isObject with
  | false =>
    have hsame := h.misshapen hobject hbefore
    rw [← hsame, hgs] at hbefore
    cases hbefore
  | true =>
    cases hfs : c.before with
    | object fs =>
      obtain ⟨gs', hgs', hnames⟩ := h.names hobject fs hfs
      rw [hgs, Value.object.injEq] at hgs'
      exact ⟨fs, rfl, hgs' ▸ hnames⟩
    | _ => rw [hfs] at hbefore; cases hbefore

/-- An array of typed items was one before, or holds what a single value became. -/
theorem Faithful.of_array_after (h : c.Faithful index convert) (hitems : c.demand index = .items)
    {ys : List Value} (hys : c.after = .array ys) :
    (∃ xs, c.before = .array xs ∧ ys.length = xs.length) ∨
      (c.before.isNull = false ∧ c.before.isArray = false ∧ ∃ y, ys = [y]) := by
  cases hbefore : c.before with
  | null =>
    rw [h.null hitems hbefore] at hys
    cases hys
  | array xs =>
    obtain ⟨ys', hys', hlength⟩ := h.items hitems xs hbefore
    rw [hys, Value.array.injEq] at hys'
    exact .inl ⟨xs, rfl, hys' ▸ hlength⟩
  | _ =>
    obtain ⟨y, hy⟩ := h.single hitems (by rw [hbefore]; rfl) (by rw [hbefore]; rfl)
    rw [hys, Value.array.injEq] at hy
    exact .inr ⟨rfl, rfl, y, hy⟩

/-- One step below a result is the result of something inside. -/
theorem Faithful.exists_inside (h : c.Faithful index convert)
    (hstep : Location.Step index c.result m) : ∃ c', Inside index c c' ∧ m = c'.result := by
  cases hstep with
  | @field gs key y hd hgs hmem =>
    have hobject : c.demand index = .object := hd
    obtain ⟨fs, hfs, hnames⟩ := h.of_object_after hobject hgs
    obtain ⟨i, hi⟩ := List.mem_iff_getElem?.1 hmem
    have hname := congrArg (·[i]?) hnames
    simp only [List.getElem?_map, hi, Option.map_some] at hname
    obtain ⟨⟨key', x⟩, hx, rfl⟩ := Option.map_eq_some_iff.1 hname.symm
    exact ⟨_, .field hobject hfs hgs hx hi, rfl⟩
  | @item ys i y hd hys hy =>
    have hitems : c.demand index = .items := hd
    have hi := (List.getElem?_eq_some_iff.1 hy).1
    rcases h.of_array_after hitems hys with ⟨xs, hxs, hlength⟩ | ⟨hnull, harray, u, rfl⟩
    · have hx := List.getElem?_eq_getElem (hlength ▸ hi)
      exact ⟨_, .item hitems hxs hys hx hy, rfl⟩
    · have hzero : i = 0 := by simpa using hi
      subst hzero
      obtain rfl : u = y := by simpa using hy
      exact ⟨_, .promoted hitems hnull harray hys, rfl⟩

/-- Every location below the result of a walk is the result of something that was walked. -/
theorem IsWalked.exists_of_below (hw : w.policy = .accumulate) (h : c.IsWalked w)
    (hbelow : Location.Below w.index c.result m) :
    ∃ c', Relation.ReflTransGen (Inside w.index) c c' ∧ m = c'.result := by
  induction hbelow with
  | refl => exact ⟨c, .refl, rfl⟩
  | tail _ hstep ih =>
    obtain ⟨inner, hinner, rfl⟩ := ih
    obtain ⟨c', hinside, heq⟩ := ((h.within hw hinner).faithful hw).exists_inside hstep
    exact ⟨c', .tail hinner hinside, heq⟩

theorem Inside.site_ne_document (h : Inside index c c') : c'.site ≠ .document := by
  cases h <;> simp

/-- What is inside has no names but those that were there before. -/
theorem Inside.undotted (h : Inside index c c') (hundotted : c.before.hasUndottedNames = true) :
    c'.before.hasUndottedNames = true := by
  cases h with
  | @field fs gs i key x y _ hfs _ hx _ =>
    rw [hfs] at hundotted
    simp only [Value.hasUndottedNames, Value.everyObject, Bool.and_eq_true] at hundotted
    have hmem := (List.mem_filter.1 (List.mem_of_getElem? hx)).1
    exact Value.everyObjectOfFields_iff.1 hundotted.2 _ hmem
  | @item xs ys i x y _ hxs _ hx _ =>
    rw [hxs] at hundotted
    exact Value.everyObjectOfItems_iff.1 hundotted _ (List.mem_of_getElem? hx)
  | promoted => exact hundotted

theorem undotted_of_inside (h : Relation.ReflTransGen (Inside index) c c')
    (hundotted : c.before.hasUndottedNames = true) : c'.before.hasUndottedNames = true := by
  induction h with
  | refl => exact hundotted
  | tail _ hstep ih => exact hstep.undotted ih

/-- A name in a resulting object is declared there, and was there before. -/
theorem Faithful.survives (h : c.Faithful index convert) (hobject : c.demand index = .object)
    {gs : Fields} (hgs : c.after = .object gs) {g : String × Value} (hg : g ∈ gs) :
    index.contains (join c.path.schema g.1) = true ∧
      (c.before.hasUndottedNames = true → '.' ∉ g.1.toList) := by
  obtain ⟨fs, hfs, hnames⟩ := h.of_object_after hobject hgs
  have hname : g.1 ∈ (fs.filter (index.stays c.path.schema)).map Prod.fst :=
    hnames ▸ List.mem_map.2 ⟨g, hg, rfl⟩
  obtain ⟨f, hf, heq⟩ := List.mem_map.1 hname
  obtain ⟨hmem, hstays⟩ := List.mem_filter.1 hf
  simp only [Index.stays, heq, Bool.and_eq_true] at hstays
  refine ⟨hstays.1, fun hundotted => ?_⟩
  rw [hfs] at hundotted
  simp only [Value.hasUndottedNames, Value.everyObject, Fields.areUndotted, Bool.and_eq_true,
    List.all_eq_true] at hundotted
  have hpoint := hundotted.1 f hmem
  rw [heq] at hpoint
  simpa using hpoint

/-- An object stands at the root, or where the index declares one. -/
theorem lookup_of_inside (h : Relation.ReflTransGen (Inside index) c c')
    (hc : c.path.schema = "" ∨ index.lookup c.path.schema = .object)
    (hobject : c'.demand index = .object) :
    c'.path.schema = "" ∨ index.lookup c'.path.schema = .object := by
  cases h with
  | refl => exact hc
  | tail _ hstep =>
    have hpath : c'.demand index = index.demand c'.path :=
      Location.demand_of_site hstep.site_ne_document
    exact .inr (Index.demand_eq_object_iff.1 (hpath.symm.trans hobject))

end Change

namespace Definition

/-- A name at an object, or a dotted one below: its first segment is a field that the definition
names at the object, and without points it is that field. -/
structure Spells (index : Index) (options : CompileOptions) (definition : Value)
    (base key : String) : Prop where
  declared : index.contains (join base key) = true
  first : ∃ s rest, segmentsOf key = s :: rest ∧ (base, s) ∈ fieldNames options definition
  named : '.' ∉ key.toList → (base, key) ∈ fieldNames options definition

theorem spells_of_contains {registry : Registry} {options : CompileOptions} {definition : Value}
    {index : Index} (h : compile registry options definition = .ok index) {base key : String}
    (hbase : base = "" ∨ index.lookup base = .object)
    (hcontains : index.contains (join base key) = true) :
    Spells index options definition base key := by
  obtain ⟨s, rest, hsegments, hfirst⟩ := named_of_contains h hbase hcontains
  refine ⟨hcontains, ⟨s, rest, hsegments, hfirst⟩, fun hundotted => ?_⟩
  rw [segmentsOf_of_undotted hundotted, List.cons.injEq] at hsegments
  exact hsegments.1 ▸ hfirst

end Definition

namespace Document

open Change Location

variable {index : Index} {options : DocumentOptions} {d : Value}

/-- A cast that was not stopped has the value of one that goes on after failures. -/
theorem value_of_finished
    (hend : options.policy = .accumulate ∨ (cast index options d).errors = none) :
    (cast index options d).value =
      (cast index { options with policy := .accumulate } d).value := by
  obtain ⟨policy, coerce, location⟩ := options
  cases policy with
  | accumulate => rfl
  | failFast =>
    have hfirst := walk_first index coerce location d
    have hclean := errors_eq_none_iff.1 (hend.resolve_left (by simp))
    rw [hfirst.failures, List.take_eq_nil_iff] at hclean
    exact hfirst.value (hclean.resolve_left (by simp))

/-- After a cast that was not stopped, a name is one that the definition has there or is spelt below
one. A document without points has no other names than those, and all its failures are recorded. -/
theorem surviving_names {registry : Registry} {compileOptions : CompileOptions} {definition : Value}
    (hcompile : Definition.compile registry compileOptions definition = .ok index)
    (hlocation : (FieldPath.parse options.location).schema = "" ∨
      index.lookup (FieldPath.parse options.location).schema = .object)
    (hend : options.policy = .accumulate ∨ (cast index options d).errors = none) :
    (∀ l, Below index (change index options d).result l → l.demand index = .object →
      ∀ fs, l.value = .object fs → ∀ f ∈ fs,
        Definition.Spells index compileOptions definition l.path.schema f.1 ∧
        (d.hasUndottedNames = true → '.' ∉ f.1.toList)) ∧
    (d.hasDistinctNames = true → d.hasUndottedNames = true →
      ((walk index options d).failures.map Prod.fst).Nodup ∧
      ∀ f ∈ (walk index options d).failures, (cast index options d).error? f.1 = some f.2) := by
  constructor
  · intro l hl hobject fs hfs f hf
    have hresult : (change index options d).result =
        (change index { options with policy := .accumulate } d).result := by
      simp only [change, Change.result, value_of_finished hend]
    rw [hresult] at hl
    have hwalked := change_isWalked index { options with policy := .accumulate } d
    obtain ⟨c, hc, rfl⟩ := hwalked.exists_of_below rfl hl
    have hfaithful := (hwalked.within rfl hc).faithful rfl
    obtain ⟨hcontains, hpoint⟩ := hfaithful.survives hobject hfs hf
    have hbase := lookup_of_inside hc hlocation hobject
    refine ⟨Definition.spells_of_contains hcompile hbase hcontains, fun hundotted => ?_⟩
    exact hpoint (undotted_of_inside hc hundotted)
  · intro hdistinct hundotted
    have hnames := Definition.hasNoEmptyName_of_compile hcompile
    have hnodup : ((walk index options d).failures.map Prod.fst).Nodup :=
      (walk_owned hnames hdistinct hundotted).nodup
    exact ⟨hnodup, fun f hf => error?_of_mem hnodup hf⟩

/-- A first name that is spelt with a point stays at the root. Its failure has the key of another
one, and replaces it. -/
theorem surviving_names_bands :
    let d : Value :=
      .object [("name", .object [("first", .array [])]), ("name.first", .object [])]
    (cast bands {} d).value = d ∧
      (walk bands {} d).failures = [("name.first", .ofType (.array []) "String"),
        ("name.first", .ofType (.object []) "String")] ∧
      Definition.Spells bands {} Definition.bands "" "name.first" := by
  intro d
  have hvalue : (cast bands {} d).value = d := by decide +kernel
  have hfailures : (walk bands {} d).failures = [("name.first", .ofType (.array []) "String"),
    ("name.first", .ofType (.object []) "String")] := by decide +kernel
  have hnames := @surviving_names bands {} d _ _ _ compile_bands (.inl rfl) (.inl rfl)
  have hroot := hnames.1 _ .refl rfl _ hvalue ("name.first", .object []) (by simp)
  exact ⟨hvalue, hfailures, hroot.1⟩

end Document

end TypedDocs
