import TypedDocs.Proofs.Schema.Bands
import TypedDocs.Proofs.Schema.Segments

/-!
# Declared paths as keys

A declared path that is read as a key leads back to itself, segment by segment, as long
as no field on the way is named by a numeral. A numeral is read as the index of an item
wherever it stands, so a path with such a name leads elsewhere.
-/

namespace TypedDocs

/-- Digits only, at least one of them. -/
def isNumeral (segment : String) : Bool :=
  !segment.toList.isEmpty && segment.toList.all fun c => '0' ≤ c && c ≤ '9'

theorem isPositional_of_isNumeral {s : String} (h : isNumeral s = true) :
    isPositional s = true := by
  unfold isNumeral at h
  simp [isPositional, h]

theorem isPositional_ne_empty {s : String} (h : isPositional s = true) : s ≠ "" := by
  rintro rfl
  exact absurd h (by decide)

/-- The name of a field addresses items only if it is a numeral. -/
theorem Definition.IsFieldName.isPositional_eq {name : String} (h : IsFieldName name) :
    isPositional name = isNumeral name := by
  have hwildcard : name ≠ wildcard := by
    rintro rfl
    exact absurd h.plain (by decide)
  have hbracket : ((['$', '['] : List Char).isPrefixOf name.toList) = false := by
    have hplain := h.plain
    unfold isOperator at hplain
    cases hcs : name.toList with
    | nil => rfl
    | cons c cs =>
      have hc : c ≠ '$' := by simpa [hcs] using hplain
      simp [List.isPrefixOf, Ne.symm hc]
  simp [isPositional, isNumeral, hwildcard, hbracket]

/-- How many segments of a key are the wildcard. -/
def wildcards (key : String) : Nat := (segmentsOf key).count wildcard

theorem wildcards_join (base : String) {s : String} (hs : '.' ∉ s.toList) :
    wildcards (join base s) = wildcards base + if s = wildcard then 1 else 0 := by
  by_cases hbase : base = ""
  · subst hbase
    have hjoin : join "" s = s := rfl
    have hnone : wildcards "" = 0 := by decide
    rw [hjoin, hnone, wildcards, segmentsOf_of_undotted hs, List.count_singleton, Nat.zero_add]
    simp
  · rw [wildcards, segmentsOf_join hbase hs, List.count_append, List.count_singleton, wildcards]
    simp

theorem count_le_countP (segments : List String) :
    segments.count wildcard ≤ segments.countP isPositional := by
  refine List.countP_mono_left fun s _ hs => ?_
  rw [eq_of_beq hs]
  decide

/-- With no more positional segments than wildcards, every positional one is the wildcard. -/
theorem eq_wildcard_of_countP_le {segments : List String} {s : String}
    (h : segments.countP isPositional ≤ segments.count wildcard) (hs : s ∈ segments)
    (hpositional : isPositional s = true) : s = wildcard := by
  obtain ⟨before, after, rfl⟩ := List.append_of_mem hs
  have hbefore := count_le_countP before
  have hafter := count_le_countP after
  rw [List.count_append, List.countP_append, List.countP_cons_of_pos hpositional] at h
  refine Decidable.byContradiction fun hne => ?_
  rw [List.count_cons_of_ne hne] at h
  omega

namespace Index

variable {index : Index} {p : FieldPath}

theorem wildcards_le_enterItems (p : FieldPath) :
    wildcards p.schema ≤ wildcards (index.enterItems p).schema := by
  induction p using enterItems.induct index with
  | case1 p h ih =>
    rw [enterItems_of_enters h]
    have hdown : wildcards p.implicitElement.schema = wildcards p.schema + 1 :=
      wildcards_join p.schema wildcard_undotted
    omega
  | case2 p h =>
    have hstays : index.enterItems p = p := enterItems_of_stays (by simpa using h)
    exact Nat.le_of_eq (by rw [hstays])

/-- Each positional segment that is followed leaves a wildcard. -/
theorem wildcards_followSegment {s : String} (hs : '.' ∉ s.toList) :
    wildcards p.schema + (if isPositional s then 1 else 0) ≤
      wildcards (index.followSegment p s).schema := by
  unfold followSegment
  split
  · have hpositional : wildcards (p.positional s).schema = wildcards p.schema + 1 :=
      wildcards_join p.schema wildcard_undotted
    omega
  · have hname : wildcards ((index.enterItems p).child (.key s)).schema =
        wildcards (index.enterItems p).schema + if s = wildcard then 1 else 0 :=
      wildcards_join _ hs
    have henter : wildcards p.schema ≤ wildcards (index.enterItems p).schema :=
      wildcards_le_enterItems p
    omega

end Index

theorem FieldPath.wildcards_step {p : FieldPath} {s : String} (hs : '.' ∉ s.toList) :
    wildcards p.schema + (if isPositional s then 1 else 0) ≤ wildcards (p.step s).schema := by
  unfold step
  split
  · have hpositional : wildcards (p.positional s).schema = wildcards p.schema + 1 :=
      wildcards_join p.schema wildcard_undotted
    omega
  · have hname : wildcards (p.child (.key s)).schema =
        wildcards p.schema + if s = wildcard then 1 else 0 := wildcards_join _ hs
    omega

/-- Where every segment leaves the wildcards it asks for, so do all of them together. -/
theorem countP_le_wildcards_foldl {f : FieldPath → String → FieldPath}
    (hf : ∀ p s, '.' ∉ s.toList →
      wildcards p.schema + (if isPositional s then 1 else 0) ≤ wildcards (f p s).schema)
    {segments : List String} (hs : ∀ s ∈ segments, '.' ∉ s.toList) (p : FieldPath) :
    wildcards p.schema + segments.countP isPositional ≤ wildcards (segments.foldl f p).schema := by
  induction segments generalizing p with
  | nil => simp
  | cons s rest ih =>
    have hhead := hf p s (hs s List.mem_cons_self)
    have hrest := ih (fun t ht => hs t (List.mem_cons_of_mem _ ht)) (f p s)
    rw [List.foldl_cons, List.countP_cons]
    omega

/-- A key that leads to itself has no positional segment but the wildcard. -/
theorem eq_wildcard_of_schema_resolve {index : Index} {key s : String}
    (h : (index.resolve .root key).schema = key) (hs : s ∈ segmentsOf key)
    (hpositional : isPositional s = true) : s = wildcard := by
  have hundotted : ∀ t ∈ segmentsOf key, '.' ∉ t.toList := fun _ => undotted_of_mem_segmentsOf
  have hcount := countP_le_wildcards_foldl (f := index.followSegment)
    (fun _ _ => Index.wildcards_followSegment) hundotted .root
  have hself : wildcards ((segmentsOf key).foldl index.followSegment .root).schema =
      (segmentsOf key).count wildcard := congrArg wildcards h
  exact eq_wildcard_of_countP_le (by omega) hs hpositional

theorem eq_wildcard_of_schema_parse {key s : String}
    (h : (FieldPath.parse key).schema = key) (hs : s ∈ segmentsOf key)
    (hpositional : isPositional s = true) : s = wildcard := by
  have hundotted : ∀ t ∈ (segmentsOf key).filter (!·.isEmpty), '.' ∉ t.toList := fun t ht =>
    undotted_of_mem_segmentsOf (List.mem_filter.1 ht).1
  have hcount := countP_le_wildcards_foldl (f := FieldPath.step)
    (fun _ _ => FieldPath.wildcards_step) hundotted .root
  have hkept : ((segmentsOf key).filter (!·.isEmpty)).countP isPositional =
      (segmentsOf key).countP isPositional := by
    rw [List.countP_filter]
    refine List.countP_congr fun t _ => ?_
    have hnonempty := @isPositional_ne_empty t
    simp only [Bool.and_eq_true, Bool.not_eq_true', String.isEmpty_eq_false_iff]
    exact ⟨fun ht => ht.1, fun ht => ⟨ht, hnonempty ht⟩⟩
  have hself :
      wildcards (((segmentsOf key).filter (!·.isEmpty)).foldl FieldPath.step .root).schema =
        (segmentsOf key).count wildcard := congrArg wildcards h
  exact eq_wildcard_of_countP_le (by omega) hs hpositional

section Joins

variable {index : Index} {p : FieldPath} {base s : String}

theorem Index.resolve_join (hbase : base ≠ "") (hs : '.' ∉ s.toList) :
    index.resolve p (join base s) = index.followSegment (index.resolve p base) s := by
  rw [resolve, segmentsOf_join hbase hs, List.foldl_append]
  rfl

theorem FieldPath.parse_join (hbase : base ≠ "") (hs : '.' ∉ s.toList) (hne : s ≠ "") :
    parse (join base s) = (parse base).step s := by
  have hkept : [s].filter (!·.isEmpty) = [s] := by simp [hne]
  rw [parse, segmentsOf_join hbase hs, List.filter_append, hkept, List.foldl_append]
  rfl

theorem Index.resolve_join_wildcard (hbase : base ≠ "") :
    index.resolve p (join base wildcard) = (index.resolve p base).positional wildcard :=
  resolve_join hbase wildcard_undotted

end Joins

namespace Definition

variable {registry : Registry} {options : CompileOptions} {definition : Value} {index : Index}

theorem declaredPath_of_contains (h : compile registry options definition = .ok index)
    {path : String} (hpath : index.contains path = true) : DeclaredPath path := by
  obtain ⟨declared, hget⟩ := Option.isSome_iff_exists.1 hpath
  exact (declared_of_compile h hget).1

theorem IsFieldName.not_positional {name : String} (hname : IsFieldName name)
    (h : isPositional name = true → name = wildcard) : isPositional name = false := by
  cases hp : isPositional name with
  | false => rfl
  | true => exact absurd hname.plain (by rw [h hp]; decide)

/-- A declared path in which nothing but the wildcard addresses items leads to itself. -/
theorem reaches_of_declaredPath (h : compile registry options definition = .ok index)
    {path : String} (hdeclared : DeclaredPath path) (hpath : index.contains path = true)
    (hnames : ∀ s ∈ segmentsOf path, isPositional s = true → s = wildcard) :
    index.resolve .root path = ⟨path, path⟩ ∧ FieldPath.parse path = ⟨path, path⟩ := by
  induction hdeclared with
  | @top name hname =>
    have hsegments := segmentsOf_of_undotted hname.undotted
    have hpositional : isPositional name = false :=
      hname.not_positional (hnames name (by rw [hsegments]; exact List.mem_cons_self))
    have hroot : (index.lookup "").isArray = false := by
      rw [lookup_empty_of_compile h]
      rfl
    refine ⟨Index.resolve_name hname.undotted hpositional hroot, ?_⟩
    have hkept : [name].filter (!·.isEmpty) = [name] := by simp [hname.nonempty]
    rw [FieldPath.parse, hsegments, hkept, List.foldl_cons, List.foldl_nil, FieldPath.step,
      if_neg (by simp [hpositional])]
    rfl
  | @field base name hbase hname ih =>
    have hsegments := segmentsOf_join hbase.ne_empty hname.undotted
    rw [hsegments] at hnames
    have hpositional : isPositional name = false :=
      hname.not_positional (hnames name (List.mem_append_right _ List.mem_cons_self))
    have hplain : name ≠ wildcard := by
      rintro rfl
      exact absurd hname.plain (by decide)
    have hobject : index.lookup base = .object := by
      rw [Index.lookup_parent_of_build (build_of_compile h) hbase.ne_empty hname.undotted hpath,
        if_neg hplain]
    obtain ⟨hresolve, hparse⟩ := ih (Index.contains_iff.2 (by rw [hobject]; rfl))
      fun s hs => hnames s (List.mem_append_left _ hs)
    constructor
    · rw [Index.resolve_join hbase.ne_empty hname.undotted, hresolve,
        Index.followSegment_name hpositional (by rw [hobject]; rfl)]
      rfl
    · rw [FieldPath.parse_join hbase.ne_empty hname.undotted hname.nonempty, hparse,
        FieldPath.step, if_neg (by simp [hpositional])]
      rfl
  | @item base hbase ih =>
    have hsegments := segmentsOf_join hbase.ne_empty wildcard_undotted
    rw [hsegments] at hnames
    have harray : index.lookup base = .array := by
      rw [Index.lookup_parent_of_build (build_of_compile h) hbase.ne_empty wildcard_undotted hpath,
        if_pos rfl]
    obtain ⟨hresolve, hparse⟩ := ih (Index.contains_iff.2 (by rw [harray]; rfl))
      fun s hs => hnames s (List.mem_append_left _ hs)
    constructor
    · rw [Index.resolve_join_wildcard hbase.ne_empty, hresolve]
      rfl
    · rw [FieldPath.parse_join hbase.ne_empty wildcard_undotted (by decide), hparse]
      rfl

/-- The segments of a declared path are the wildcard and names of fields. -/
theorem DeclaredPath.isPositional_eq {path s : String} (h : DeclaredPath path)
    (hs : s ∈ segmentsOf path) : s = wildcard ∨ isPositional s = isNumeral s := by
  induction h with
  | top hname =>
    rw [segmentsOf_of_undotted hname.undotted, List.mem_singleton] at hs
    exact .inr (hs ▸ hname.isPositional_eq)
  | field hbase hname ih =>
    rw [segmentsOf_join hbase.ne_empty hname.undotted] at hs
    rcases List.mem_append.1 hs with hs | hs
    · exact ih hs
    · rw [List.mem_singleton.1 hs]
      exact .inr hname.isPositional_eq
  | item hbase ih =>
    rw [segmentsOf_join hbase.ne_empty wildcard_undotted] at hs
    rcases List.mem_append.1 hs with hs | hs
    · exact ih hs
    · exact .inl (List.mem_singleton.1 hs)

theorem not_numeral_of_wildcard {segments : List String}
    (h : ∀ s ∈ segments, isPositional s = true → s = wildcard) :
    ∀ s ∈ segments, isNumeral s = false := by
  intro s hs
  cases hnumeral : isNumeral s with
  | false => rfl
  | true =>
    have hwild := h s hs (isPositional_of_isNumeral hnumeral)
    rw [hwild] at hnumeral
    exact absurd hnumeral (by decide)

end Definition

namespace Index

/-- A declared path leads to itself, as a key and as the location of a document, exactly if no
field on the way is named by a numeral. -/
theorem reaches_itself_iff {registry : Registry} {options : CompileOptions} {definition : Value}
    {index : Index} (h : Definition.compile registry options definition = .ok index) {path : String}
    (hpath : index.contains path = true) :
    ((index.resolve .root path).schema = path ↔ ∀ s ∈ segmentsOf path, isNumeral s = false) ∧
    ((FieldPath.parse path).schema = path ↔ ∀ s ∈ segmentsOf path, isNumeral s = false) := by
  have hdeclared := Definition.declaredPath_of_contains h hpath
  have hreaches (hnumerals : ∀ s ∈ segmentsOf path, isNumeral s = false) :
      index.resolve .root path = ⟨path, path⟩ ∧ FieldPath.parse path = ⟨path, path⟩ := by
    refine Definition.reaches_of_declaredPath h hdeclared hpath fun s hs hpositional => ?_
    rcases hdeclared.isPositional_eq hs with hwild | heq
    · exact hwild
    · rw [heq, hnumerals s hs] at hpositional
      cases hpositional
  constructor
  · refine ⟨fun hself => ?_, fun hnumerals => by rw [(hreaches hnumerals).1]⟩
    exact Definition.not_numeral_of_wildcard fun s hs => eq_wildcard_of_schema_resolve hself hs
  · refine ⟨fun hself => ?_, fun hnumerals => by rw [(hreaches hnumerals).2]⟩
    exact Definition.not_numeral_of_wildcard fun s hs => eq_wildcard_of_schema_parse hself hs

theorem reaches_itself_members :
    bands.contains "members.$.first" = true ∧
      (bands.resolve .root "members.$.first").schema = "members.$.first" ∧
      (FieldPath.parse "members.$.first").schema = "members.$.first" := by
  have hdeclared : bands.contains "members.$.first" = true := by decide +kernel
  have hiff := reaches_itself_iff compile_bands hdeclared
  have hnumerals : ∀ s ∈ segmentsOf "members.$.first", isNumeral s = false := by decide
  exact ⟨hdeclared, hiff.1.2 hnumerals, hiff.2.2 hnumerals⟩

/-- A field with the name of a year is declared, and its path leads to the items of no array. -/
theorem year_not_reached :
    ∃ index,
      Definition.compile Registry.builtin {} (.object [("2020", .string "Number")]) = .ok index ∧
      index.contains "2020" = true ∧ (index.resolve .root "2020").schema ≠ "2020" ∧
      (FieldPath.parse "2020").schema ≠ "2020" := by
  refine ⟨_, rfl, ?_, ?_, ?_⟩
  · decide +kernel
  · decide +kernel
  · decide

end Index

end TypedDocs
