import TypedDocs.Proofs.Schema.Open
import TypedDocs.Proofs.Schema.Reachable

/-!
# The fields that a definition names

A definition names a field directly in the object that has it. Every path that compiling
declares is such a field, or stands for the items of an array. So a key that joins with
the path of an object to a declared path begins with a field that is named there, and is
that field if it has no point.
-/

namespace TypedDocs

section Joins

variable {base base' s s' : String}

theorem dotted_join (hbase : base ≠ "") : '.' ∈ (join base s).toList := by
  rw [join_of_ne_empty hbase]
  simp

/-- A path determines its last segment and what stands before it. -/
theorem join_injective (hs : '.' ∉ s.toList) (hs' : '.' ∉ s'.toList)
    (h : join base s = join base' s') : base = base' ∧ s = s' := by
  by_cases hbase : base = ""
  · have hjoin : join base s = s := by rw [hbase]; rfl
    by_cases hbase' : base' = ""
    · have hjoin' : join base' s' = s' := by rw [hbase']; rfl
      exact ⟨hbase.trans hbase'.symm, by rw [← hjoin, h, hjoin']⟩
    · have hdotted := dotted_join (s := s') hbase'
      rw [← h, hjoin] at hdotted
      exact absurd hdotted hs
  · by_cases hbase' : base' = ""
    · have hdotted := dotted_join (s := s) hbase
      rw [h, hbase'] at hdotted
      exact absurd hdotted hs'
    · have hsegments := congrArg segmentsOf h
      rw [segmentsOf_join hbase hs, segmentsOf_join hbase' hs'] at hsegments
      obtain ⟨hbefore, hlast⟩ := List.append_inj' hsegments rfl
      refine ⟨?_, List.singleton_inj.1 hlast⟩
      rw [← intercalate_segmentsOf base, hbefore, intercalate_segmentsOf]

theorem mem_segmentsOf_join {key : String} (h : s ∈ segmentsOf key) :
    s ∈ segmentsOf (join base key) := by
  by_cases hbase : base = ""
  · have hjoin : join base key = key := by rw [hbase]; rfl
    rwa [hjoin]
  · rw [join_of_ne_empty hbase, segmentsOf_append]
    exact List.mem_append_right _ h

end Joins

namespace Index

variable {index : Index} {d : Declarations}

theorem contains_of_lookup {key : String} {l : Lookup} (h : index.lookup key = l)
    (hl : l.isUndeclared = false) : index.contains key = true := by
  rw [contains_iff, h, hl]

/-- What stands above a declared path is declared. -/
theorem contains_of_foldl_join (hbuild : build d = .ok index) {base : String} (hbase : base ≠ "")
    {segments : List String} (hundotted : ∀ s ∈ segments, '.' ∉ s.toList)
    (h : index.contains (segments.foldl join base) = true) : index.contains base = true := by
  induction segments generalizing base with
  | nil => exact h
  | cons s rest ih =>
    have hchild : index.contains (join base s) = true :=
      ih (join_base_ne_empty hbase) (fun t ht => hundotted t (List.mem_cons_of_mem _ ht)) h
    have hparent := lookup_parent_of_build hbuild hbase (hundotted s List.mem_cons_self) hchild
    refine contains_of_lookup hparent ?_
    split <;> rfl

end Index

namespace Definition

theorem DeclaredPath.segments_ne_empty {path : String} (h : DeclaredPath path) :
    ∀ s ∈ segmentsOf path, s ≠ "" := by
  induction h with
  | top hname =>
    intro s hs
    rw [segmentsOf_of_undotted hname.undotted] at hs
    exact List.mem_singleton.1 hs ▸ hname.nonempty
  | field hbase hname ih =>
    intro s hs
    rw [segmentsOf_join hbase.ne_empty hname.undotted] at hs
    rcases List.mem_append.1 hs with hs | hs
    · exact ih s hs
    · exact List.mem_singleton.1 hs ▸ hname.nonempty
  | item hbase ih =>
    intro s hs
    rw [segmentsOf_join hbase.ne_empty wildcard_undotted] at hs
    rcases List.mem_append.1 hs with hs | hs
    · exact ih s hs
    · rw [List.mem_singleton.1 hs]
      decide

theorem DeclaredPath.ne_wildcard {path : String} (h : DeclaredPath path) : path ≠ wildcard := by
  cases h with
  | top hname =>
    rintro rfl
    exact absurd hname.plain (by decide)
  | field hbase _ =>
    intro heq
    exact wildcard_undotted (heq ▸ dotted_join hbase.ne_empty)
  | item hbase =>
    intro heq
    exact wildcard_undotted (heq ▸ dotted_join hbase.ne_empty)

mutual
/-- The fields that a node at a path names: the path of the object, and the name. -/
def fieldsBelow (path : String) : Value → List (String × String)
  | .array [element] => fieldsBelow (join path wildcard) element
  | .object members => fieldsOfType path members ++ fieldsOfMembers path members
  | _ => []
/-- The fields named by the value of the type key. -/
def fieldsOfType (path : String) : List (String × Value) → List (String × String)
  | [] => []
  | (key, node) :: rest =>
    if key = typeKey then fieldsBelow path node else fieldsOfType path rest
/-- The fields named by the other members. -/
def fieldsOfMembers (base : String) : List (String × Value) → List (String × String)
  | [] => []
  | (key, node) :: rest =>
    if isOperator key then fieldsOfMembers base rest
    else (base, key) :: fieldsBelow (join base key) node ++ fieldsOfMembers base rest
end

/-- The fields that a definition names, with the implicit identifier. -/
def fieldNames (options : CompileOptions) : Value → List (String × String)
  | .object members =>
    (if options.implicitId then [("", idPath)] else []) ++ fieldsOfMembers "" members
  | _ => []

/-- All declared paths have a property. -/
def AllPaths (Q : String → Prop) (d : Declarations) : Prop :=
  ∀ path, d.contains path = true → Q path

section Paths

variable {registry : Registry} {Q : String → Prop}

theorem AllPaths.insert {d : Declarations} (h : AllPaths Q d) {path : String} (hpath : Q path)
    (declared : Option DeclaredType) : AllPaths Q (d.insert path declared) := by
  intro other hother
  rw [Dictionary.contains, Dictionary.get?_insert] at hother
  split at hother
  · rename_i heq
    exact heq ▸ hpath
  · exact h other hother

theorem fieldsOfType_eq {path : String} {members : Fields} :
    fieldsOfType path members = (typeNode? members).elim [] (fieldsBelow path) := by
  induction members with
  | nil => rw [fieldsOfType]; rfl
  | cons m rest ih =>
    obtain ⟨key, node⟩ := m
    rw [fieldsOfType, typeNode?, Fields.get?]
    split
    · rfl
    · exact ih

/-- A property of the items of arrays and of the fields of nodes is one of all declared paths. -/
theorem allPaths (hitems : ∀ base, Q (join base wildcard)) :
    Cases registry
      (fun path node d d' => (∀ f ∈ fieldsBelow path node, IsFieldName f.2 → Q (join f.1 f.2)) →
        Q path → AllPaths Q d → AllPaths Q d')
      (fun base members d d' =>
        (∀ f ∈ fieldsOfMembers base members, IsFieldName f.2 → Q (join f.1 f.2)) →
        AllPaths Q d → AllPaths Q d') where
  named _ _ hpath hd := hd.insert hpath _
  emptyArray _ hpath hd := hd.insert hpath _
  array {path element d d'} h hnames hpath hd := by
    simp only [fieldsBelow] at hnames
    exact h hnames (hitems path) (hd.insert hpath _)
  typed ht h _ hnames hpath hd := by
    simp only [fieldsBelow, fieldsOfType_eq, ht, List.mem_append] at hnames
    exact h (fun f hf => hnames f (.inl hf)) hpath hd
  typedFields ht h _ _ hfields hnames hpath hd := by
    simp only [fieldsBelow, fieldsOfType_eq, ht, List.mem_append] at hnames
    exact hfields (fun f hf => hnames f (.inr hf)) (h (fun f hf => hnames f (.inl hf)) hpath hd)
  object _ _ h hnames hpath hd := by
    simp only [fieldsBelow, List.mem_append] at hnames
    exact h (fun f hf => hnames f (.inr hf)) (hd.insert hpath _)
  untyped _ _ _ hpath hd := hd.insert hpath _
  noFields _ hd := hd
  skipped hkey h hnames hd := by
    rw [fieldsOfMembers, if_pos hkey] at hnames
    exact h hnames hd
  field {base key node rest d d₁ d'} hkey hnode h hnames hd := by
    rw [fieldsOfMembers, if_neg (by simp [hkey.plain])] at hnames
    simp only [List.cons_append, List.mem_cons, List.mem_append] at hnames
    have hpath : Q (join base key) := hnames (base, key) (.inl rfl) hkey
    exact h (fun f hf => hnames f (.inr (.inr hf)))
      (hnode (fun f hf => hnames f (.inr (.inl hf))) hpath hd)

end Paths

section Compiled

variable {registry : Registry} {options : CompileOptions} {definition : Value} {index : Index}
  (h : compile registry options definition = .ok index)
include h

/-- Every declared path is that of the items of an array or of a field the definition names. -/
theorem item_or_field_of_contains {path : String} (hpath : index.contains path = true) :
    (∃ base, path = join base wildcard) ∨
      ∃ f ∈ fieldNames options definition, IsFieldName f.2 ∧ path = join f.1 f.2 := by
  have hpaths := paths_of_compile h
  cases definition with
  | object members =>
    simp only [declarations] at hpaths
    cases hfields : declareFields registry "" members Dictionary.empty with
    | error e => rw [hfields] at hpaths; cases hpaths
    | ok d =>
      rw [hfields] at hpaths
      simp only [bind, Except.bind] at hpaths
      have hd := (allPaths
        (Q := fun path => (∃ base, path = join base wildcard) ∨
          ∃ f ∈ fieldNames options (.object members), IsFieldName f.2 ∧ path = join f.1 f.2)
        (fun base => .inl ⟨base, rfl⟩)).fields members hfields
        (fun f hf hname => .inr ⟨f, List.mem_append_right _ hf, hname, rfl⟩)
        (fun _ hnone => by cases hnone)
      split at hpaths
      · rename_i himplicit
        simp only [Bool.and_eq_true] at himplicit
        have hid : ("", idPath) ∈ fieldNames options (.object members) := by
          simp [fieldNames, himplicit.1]
        have hidPath : (∃ base, idPath = join base wildcard) ∨
            ∃ f ∈ fieldNames options (.object members), IsFieldName f.2 ∧
              idPath = join f.1 f.2 :=
          .inr ⟨_, hid, ⟨by decide, by decide, by decide⟩, rfl⟩
        have hall := hd.insert hidPath (some (.scalar .objectId))
        rw [Except.ok.inj hpaths] at hall
        exact hall path hpath
      · rw [Except.ok.inj hpaths] at hd
        exact hd path hpath
  | _ => simp only [declarations] at hpaths; cases hpaths

/-- No declared path has an empty name in it. -/
theorem not_contains_empty_name (base : String) : index.contains (join base "") = false := by
  rw [Bool.eq_false_iff]
  intro hcontains
  have hpath := declaredPath_of_contains h hcontains
  have hempty : "" ∈ segmentsOf (join base "") := mem_segmentsOf_join (by decide)
  exact hpath.segments_ne_empty "" hempty rfl

omit h in
theorem DeclaredPath.join_eq_foldl {base key : String} (hpath : DeclaredPath (join base key)) :
    join base key = (segmentsOf key).foldl join base := by
  by_cases hbase : base = ""
  · have hjoin : join base key = key := by rw [hbase]; rfl
    rw [hjoin] at hpath ⊢
    rw [hbase, foldl_join hpath.segments_ne_empty, intercalate_segmentsOf]
  · exact TypedDocs.join_eq_foldl hbase key

/-- Items are declared below arrays only, and none at the root. -/
theorem not_contains_item {base : String} (hbase : base = "" ∨ index.lookup base = .object) :
    index.contains (join base wildcard) = false := by
  rw [Bool.eq_false_iff]
  intro hcontains
  by_cases hempty : base = ""
  · have hdeclared := declaredPath_of_contains h hcontains
    exact hdeclared.ne_wildcard (by rw [hempty]; rfl)
  · have hparent :=
      Index.lookup_parent_of_build (build_of_compile h) hempty wildcard_undotted hcontains
    rw [hbase.resolve_left hempty, if_pos rfl] at hparent
    cases hparent

/-- A declared path below an object begins with a field that the definition names there. -/
theorem named_of_contains {base key : String}
    (hbase : base = "" ∨ index.lookup base = .object)
    (hcontains : index.contains (join base key) = true) :
    ∃ s rest, segmentsOf key = s :: rest ∧ (base, s) ∈ fieldNames options definition := by
  obtain ⟨s, rest, hsegments⟩ := exists_segments key
  have hundotted : ∀ t ∈ s :: rest, '.' ∉ t.toList := fun t ht =>
    undotted_of_mem_segmentsOf (hsegments ▸ ht)
  have hs : '.' ∉ s.toList := hundotted s List.mem_cons_self
  have hpath := declaredPath_of_contains h hcontains
  have hne : s ≠ "" :=
    hpath.segments_ne_empty s (mem_segmentsOf_join (hsegments ▸ List.mem_cons_self))
  have hfirst : index.contains (join base s) = true := by
    rw [hpath.join_eq_foldl, hsegments] at hcontains
    exact Index.contains_of_foldl_join (build_of_compile h) (join_ne_empty hne)
      (fun t ht => hundotted t (List.mem_cons_of_mem _ ht)) hcontains
  refine ⟨s, rest, hsegments, ?_⟩
  rcases item_or_field_of_contains h hfirst with ⟨base', heq⟩ | ⟨f, hf, hname, heq⟩
  · obtain ⟨rfl, rfl⟩ := join_injective hs wildcard_undotted heq
    rw [not_contains_item h hbase] at hfirst
    cases hfirst
  · obtain ⟨hpath, hkey⟩ := join_injective hs hname.undotted heq
    rw [hpath, hkey]
    exact hf

end Compiled

end Definition

end TypedDocs
