import TypedDocs.Proofs.Schema.Bands
import TypedDocs.Proofs.Schema.Nodes
import TypedDocs.Proofs.Schema.Segments

/-!
# The index of a definition is the definition, read by path

The index says of a path what kind of node it leads to, and that it is not declared if it
leads nowhere. Each node is declared over what has been declared before it, and changes only
what the segments below it lead to. If a name stood both in a node and in its type, then one
of the fields would hide the other and leave behind what is below that one.
-/

namespace TypedDocs

section Lookups

theorem Lookup.isUndeclared_ofDeclared (declared : Option DeclaredType) :
    (ofDeclared declared).isUndeclared = false := by
  unfold ofDeclared
  split <;> rfl

variable {d : Declarations} {declared : Option DeclaredType} {key path : String}

theorem Index.lookup_eq : lookup ⟨d⟩ key = (d.get? key).elim .undeclared .ofDeclared := by
  unfold lookup get?
  cases d.get? key with
  | none => rfl
  | some declared =>
    cases declared with
    | none => rfl
    | some t => cases t <;> rfl

theorem Index.lookup_insert_self : lookup ⟨d.insert path declared⟩ path = .ofDeclared declared := by
  rw [lookup_eq, Dictionary.get?_insert_self]
  rfl

theorem Index.lookup_insert_of_ne (h : key ≠ path) :
    lookup ⟨d.insert path declared⟩ key = lookup ⟨d⟩ key := by
  rw [lookup_eq, lookup_eq, Dictionary.get?_insert, if_neg (Ne.symm h)]

end Lookups

namespace Definition

/-- What is found one segment further down. -/
def foundBelow (s : String) (found : List String → Option Lookup) : List String → Option Lookup
  | [] => none
  | t :: rest => if t = s then found rest else none

/-- Declarations have been changed at and below a path to what is found by the segments from there,
where anything is found, and nowhere else. -/
structure Describes (path : String) (found : List String → Option Lookup) (d d' : Declarations) :
    Prop where
  inside : ∀ segments l, found segments = some l →
    ∀ key, keySegments key = keySegments path ++ segments → Index.lookup ⟨d'⟩ key = l
  outside : ∀ key, (∀ segments, keySegments key = keySegments path ++ segments →
    found segments = none) → Index.lookup ⟨d'⟩ key = Index.lookup ⟨d⟩ key
  declared : ∀ segments l, found segments = some l → l.isUndeclared = false

namespace Describes

variable {path s : String} {found found' : List String → Option Lookup} {d d₁ d' : Declarations}

theorem nothing : Describes path (fun _ => none) d d where
  inside _ _ h := by cases h
  outside _ _ := rfl
  declared _ _ h := by cases h

theorem insert (path : String) (d : Declarations) (declared : Option DeclaredType) :
    Describes path (fun segments => if segments = [] then some (.ofDeclared declared) else none) d
      (d.insert path declared) where
  inside segments l h key hkey := by
    split at h
    · rename_i hempty
      cases h
      rw [hempty, List.append_nil] at hkey
      rw [keySegments_injective hkey, Index.lookup_insert_self]
    · cases h
  outside key h := by
    refine Index.lookup_insert_of_ne fun heq => ?_
    have hnone := h [] (by rw [heq, List.append_nil])
    simp at hnone
  declared segments l h := by
    split at h
    · cases h
      exact Lookup.isUndeclared_ofDeclared declared
    · cases h

/-- Of two changes, the later one counts. -/
theorem trans (h : Describes path found d d₁) (h' : Describes path found' d₁ d') :
    Describes path (fun segments => (found' segments).or (found segments)) d d' where
  inside segments l hl key hkey := by
    cases hlater : found' segments with
    | some l' =>
      rw [hlater] at hl
      cases hl
      exact h'.inside segments l hlater key hkey
    | none =>
      -- The later change leaves alone what it does not find.
      rw [hlater] at hl
      refine (h'.outside key fun other hother => ?_).trans (h.inside segments l hl key hkey)
      rw [← List.append_cancel_left (hkey.symm.trans hother)]
      exact hlater
  outside key hnone := by
    have hneither := fun segments hkey => Option.or_eq_none_iff.1 (hnone segments hkey)
    exact (h'.outside key fun segments hkey => (hneither segments hkey).1).trans
      (h.outside key fun segments hkey => (hneither segments hkey).2)
  declared segments l hl := by
    rcases Option.or_eq_some_iff.1 hl with hl | ⟨-, hl⟩
    · exact h'.declared segments l hl
    · exact h.declared segments l hl

/-- A change one segment further down. -/
theorem below (hs : '.' ∉ s.toList) (hne : s ≠ "") (h : Describes (join path s) found d d') :
    Describes path (foundBelow s found) d d' where
  inside segments l hl key hkey := by
    cases segments with
    | nil => cases hl
    | cons t rest =>
      rw [foundBelow] at hl
      split at hl
      · rename_i heq
        refine h.inside rest l hl key ?_
        rw [hkey, keySegments_join hs hne, heq, List.append_assoc]
        rfl
      · cases hl
  outside key hnone := by
    refine h.outside key fun rest hkey => ?_
    rw [keySegments_join hs hne, List.append_assoc] at hkey
    exact (if_pos rfl).symm.trans (hnone (s :: rest) hkey)
  declared segments l hl := by
    cases segments with
    | nil => cases hl
    | cons t rest =>
      rw [foundBelow] at hl
      split at hl
      · exact h.declared rest l hl
      · cases hl

theorem congr (h : Describes path found d d') (heq : ∀ segments, found segments = found' segments) :
    Describes path found' d d' := by
  rwa [← funext heq]

end Describes

section Compiling

variable {registry : Registry} {path : String} {d d₁ d' : Declarations} {members : Fields}

/-- The kind of the node that some segments lead to. -/
abbrev kindBelow? (registry : Registry) (node : Value) (segments : List String) : Option Lookup :=
  (nodeBelow? node segments).map (kind registry)

/-- The kind of the node that some segments lead to below the members of an object. -/
abbrev memberKind? (registry : Registry) (members : Fields) (segments : List String) :
    Option Lookup :=
  (memberBelow? members segments).map (kind registry)

/-- A node below which there is nothing is declared by one insertion. -/
theorem describes_leaf {node : Value} {declared : Option DeclaredType}
    (hkind : kind registry node = .ofDeclared declared) (hstep : ∀ s, step? s node = none) :
    Describes path (kindBelow? registry node) d (d.insert path declared) := by
  refine (Describes.insert path d declared).congr fun segments => ?_
  cases segments with
  | nil => exact congrArg some hkind.symm
  | cons s rest => rw [kindBelow?, nodeBelow?_cons, hstep]; rfl

/-- An array is declared before its element is. -/
theorem describes_array {element : Value} (h : Describes (join path wildcard)
      (kindBelow? registry element) (d.insert path (some .array)) d') :
    Describes path (kindBelow? registry (.array [element])) d d' := by
  refine ((Describes.insert path d (some .array)).trans
    (h.below wildcard_undotted (by decide))).congr fun segments => ?_
  cases segments with
  | nil => rfl
  | cons s rest =>
    have hstep : step? s (.array [element]) = if s = wildcard then some element else none := by
      rw [step?, typeChain]
      · simp [stepOf?]
      · simp
    rw [kindBelow?, nodeBelow?_cons, hstep, foundBelow]
    by_cases hs : s = wildcard
    · simp [hs]
    · simp [hs]

/-- An object without a type key is declared before its fields are. -/
theorem describes_object (htype : typeNode? members = none) (hfields : hasFields members = true)
    (h : Describes path (memberKind? registry members) (d.insert path (some .object)) d') :
    Describes path (kindBelow? registry (.object members)) d d' := by
  refine ((Describes.insert path d (some .object)).trans h).congr fun segments => ?_
  cases segments with
  | nil =>
    have hkind : kind registry (.object members) = .object := by
      rw [kind_object htype, hfields]
      rfl
    exact congrArg some hkind.symm
  | cons s rest =>
    rw [kindBelow?, nodeBelow?_cons, step?_object, htype]
    simp [memberKind?, memberBelow?]

/-- A type is declared before the fields beside it are, and none of them is also in the type. -/
theorem describes_typed {t : Value} (htype : typeNode? members = some t)
    (hapart : ∀ m ∈ members, isOperator m.1 = false → step? m.1 t = none)
    (ht : Describes path (kindBelow? registry t) d d₁)
    (h : Describes path (memberKind? registry members) d₁ d') :
    Describes path (kindBelow? registry (.object members)) d d' := by
  refine (ht.trans h).congr fun segments => ?_
  cases segments with
  | nil => exact congrArg some (kind_object_of_type htype).symm
  | cons s rest =>
    have hobject : nodeBelow? (.object members) (s :: rest) =
        ((memberNode? s members).or (step? s t)).bind (nodeBelow? · rest) := by
      rw [nodeBelow?_cons, step?_object, htype]
      rfl
    simp only [kindBelow?, memberKind?, memberBelow?, hobject, nodeBelow?_cons]
    cases hmember : memberNode? s members with
    | none => rfl
    | some n =>
      -- Where the field beside the type leads nowhere, nothing inside the type shows through.
      have hstep : step? s t = none := by
        unfold memberNode? at hmember
        split at hmember
        · cases hmember
        · rename_i hs
          exact hapart (s, n) (Fields.mem_of_get? hmember) (by simpa using hs)
      simp [hstep]

theorem memberKind?_of_no_fields (h : hasFields members = false) :
    memberKind? registry members = fun _ => none := by
  funext segments
  cases segments with
  | nil => rfl
  | cons s rest => rw [memberKind?, memberBelow?, memberNode?_of_no_fields h]; rfl

theorem distinct_of_typeNode? {t : Value} (ht : typeNode? members = some t)
    (h : (Value.object members).hasDistinctNames = true) : t.hasDistinctNames = true := by
  simp only [Value.hasDistinctNames, Value.everyObject, Bool.and_eq_true] at h
  exact Value.everyObjectOfFields_iff.1 h.2 _ (Fields.mem_of_get? ht)

theorem namesApartInType_eq : namesApartInType members = (typeNode? members).all namesApart := by
  induction members with
  | nil => rw [namesApartInType]; rfl
  | cons m rest ih =>
    obtain ⟨key, node⟩ := m
    rw [namesApartInType, typeNode?, Fields.get?]
    split
    · rfl
    · exact ih

theorem apart_of_typed {t : Value} (ht : typeNode? members = some t)
    (h : namesApart (.object members) = true) :
    (∀ m ∈ members, isOperator m.1 = false → step? m.1 t = none) ∧ namesApart t = true ∧
      namesApartInFields members = true := by
  rw [namesApart, namesApartInType_eq, ht, Bool.and_eq_true, Bool.and_eq_true] at h
  refine ⟨fun m hm hplain => ?_, h.1.2, h.2⟩
  have hm' := List.all_eq_true.1 h.1.1 m hm
  simpa [hplain] using hm'

/-- A field is declared before those after it are, and none of them has its name. -/
theorem describes_field {key : String} {node : Value} {rest : Fields} (hkey : IsFieldName key)
    (hnew : key ∉ rest.map Prod.fst)
    (hnode : Describes (join path key) (kindBelow? registry node) d d₁)
    (h : Describes path (memberKind? registry rest) d₁ d') :
    Describes path (memberKind? registry ((key, node) :: rest)) d d' := by
  refine ((hnode.below hkey.undotted hkey.nonempty).trans h).congr fun segments => ?_
  cases segments with
  | nil => rfl
  | cons s more =>
    rw [memberKind?, memberBelow?, memberKind?, memberBelow?, foundBelow, memberNode?, memberNode?,
      Fields.get?]
    by_cases hs : s = key
    · have hlater : Fields.get? rest key = none := by
        rw [← Option.not_isSome_iff_eq_none, Fields.isSome_get?_iff]
        exact hnew
      simp [hs, hkey.plain, hlater]
    · simp [hs, Ne.symm hs]

theorem memberKind?_operator {key : String} {node : Value} {rest : Fields}
    (hkey : isOperator key = true) :
    memberKind? registry ((key, node) :: rest) = memberKind? registry rest := by
  funext segments
  cases segments with
  | nil => rfl
  | cons s more =>
    have hmember : memberNode? s ((key, node) :: rest) = memberNode? s rest := by
      unfold memberNode?
      split
      · rfl
      · rename_i hs
        rw [Fields.get?, if_neg]
        rintro rfl
        exact hs hkey
    rw [memberKind?, memberKind?, memberBelow?, memberBelow?, hmember]

/-- Declaring a node declares what the segments below it lead to. -/
theorem describes (registry : Registry) :
    Cases registry
      (fun path node d d' => node.hasDistinctNames = true → namesApart node = true →
        Describes path (kindBelow? registry node) d d')
      (fun base members d d' => (Value.object members).hasDistinctNames = true →
        namesApartInFields members = true →
          Describes base (memberKind? registry members) d d') where
  named {path name t d} ht _ _ := by
    refine describes_leaf ?_ fun s => ?_
    · simp [kind, typeChain, ownKind, ht]
    · simp [step?, typeChain, stepOf?]
  emptyArray _ _ := by
    refine describes_leaf ?_ fun s => ?_
    · simp [kind, typeChain, ownKind, Lookup.ofDeclared]
    · simp [step?, typeChain, stepOf?]
  array h hdistinct hapart := by
    simp only [Value.hasDistinctNames, Value.everyObject, Value.everyObjectOfItems,
      Bool.and_true] at hdistinct
    simp only [namesApart, namesApartInItems, Bool.and_true] at hapart
    exact describes_array (h hdistinct hapart)
  typed {path members t d d'} ht h hfields hdistinct hapart := by
    obtain ⟨hnames, htype, -⟩ := apart_of_typed ht hapart
    refine describes_typed ht hnames (h (distinct_of_typeNode? ht hdistinct) htype) ?_
    rw [memberKind?_of_no_fields hfields]
    exact .nothing
  typedFields ht h _ _ hfields hdistinct hapart := by
    obtain ⟨hnames, htype, hrest⟩ := apart_of_typed ht hapart
    exact describes_typed ht hnames (h (distinct_of_typeNode? ht hdistinct) htype)
      (hfields hdistinct hrest)
  object ht hfields h hdistinct hapart := by
    simp only [namesApart, Bool.and_eq_true] at hapart
    exact describes_object ht hfields (h hdistinct hapart.2)
  untyped ht hfields _ _ := by
    refine describes_leaf ?_ fun s => ?_
    · rw [kind_object ht, hfields]
      rfl
    · rw [step?_object, ht, memberNode?_of_no_fields hfields]
      rfl
  noFields _ _ := by
    rw [memberKind?_of_no_fields rfl]
    exact .nothing
  skipped hkey h hdistinct hapart := by
    simp only [namesApartInFields, Bool.and_eq_true] at hapart
    rw [memberKind?_operator hkey]
    exact h (Value.distinct_cons hdistinct).2.2 hapart.2
  field hkey hnode h hdistinct hapart := by
    obtain ⟨hnew, hvalue, hrest⟩ := Value.distinct_cons hdistinct
    simp only [namesApartInFields, hkey.plain, Bool.false_or, Bool.and_eq_true] at hapart
    exact describes_field hkey hnew (hnode hvalue hapart.1) (h hrest hapart.2)

end Compiling

/-- The keys that are taken for names of fields can be such. -/
theorem isFieldName_of_declareFields {registry : Registry} {base : String} {members : Fields}
    {d d' : Declarations} (h : declareFields registry base members d = .ok d') :
    ∀ m ∈ members, isOperator m.1 = false → IsFieldName m.1 := by
  induction members generalizing d with
  | nil => exact fun m hm => absurd hm List.not_mem_nil
  | cons m rest ih =>
    obtain ⟨key, node⟩ := m
    rw [declareFields] at h
    rw [List.forall_mem_cons]
    split at h
    · rename_i hoperator
      exact ⟨fun hplain => by simp [hoperator] at hplain, ih h⟩
    · split at h
      · cases h
      · rename_i hname
        simp only [Bool.or_eq_true, not_or, List.contains_iff_mem, String.isEmpty_iff] at hname
        cases hnode : declareNode registry (join base key) node d with
        | error e => rw [hnode] at h; cases h
        | ok d₁ =>
          rw [hnode] at h
          exact ⟨fun hplain => ⟨hplain, hname.1, hname.2⟩, ih h⟩

/-- Once the fields of a definition have been declared, a path has the kind of the node it leads
to. -/
theorem lookup_of_declareFields {registry : Registry} {members : Fields} {d : Declarations}
    (h : declareFields registry "" members Dictionary.empty = .ok d)
    (hdistinct : (Value.object members).hasDistinctNames = true)
    (hapart : hasNamesApart (.object members) = true) (path : String) :
    (∀ node, nodeAt? (.object members) (segmentsOf path) = some node →
        Index.lookup ⟨d⟩ path = kind registry node ∧ (kind registry node).isUndeclared = false) ∧
      (nodeAt? (.object members) (segmentsOf path) = none →
        Index.lookup ⟨d⟩ path = .undeclared) := by
  have hdescribes := (describes registry).fields members h hdistinct hapart
  have hwalk : memberKind? registry members (keySegments path) =
      (nodeAt? (.object members) (segmentsOf path)).map (kind registry) := by
    unfold keySegments
    split
    · rename_i hempty
      -- The root is no path, and no field has an empty name.
      have hnone : memberNode? "" members = none := by
        cases hmember : memberNode? "" members with
        | none => rfl
        | some node =>
          have hplain : isOperator "" = false := by decide
          have hname := isFieldName_of_declareFields h _ (Fields.mem_of_get? hmember) hplain
          exact absurd rfl hname.nonempty
      rw [String.isEmpty_iff.1 hempty]
      exact congrArg (fun o => (o.bind fun node => nodeBelow? node []).map (kind registry))
        hnone.symm
    · rfl
  refine ⟨fun node hnode => ?_, fun hnone => ?_⟩
  · rw [hnode, Option.map_some] at hwalk
    exact ⟨hdescribes.inside _ _ hwalk path rfl, hdescribes.declared _ _ hwalk⟩
  · rw [hnone, Option.map_none] at hwalk
    refine hdescribes.outside path fun segments hkey => ?_
    have hsegments : keySegments path = segments := hkey
    rw [← hsegments, hwalk]

/-- The identifier is declared after the fields of a definition, and only if it is none of them. -/
theorem lookup_of_declarations {registry : Registry} {options : CompileOptions} {members : Fields}
    {d' : Declarations} (h : declarations registry options (.object members) = .ok d') :
    ∃ d, declareFields registry "" members Dictionary.empty = .ok d ∧
      ∀ path, Index.lookup ⟨d'⟩ path =
        if (options.implicitId = true ∧ path = idPath) ∧
            (Index.lookup ⟨d⟩ path).isUndeclared = true then .scalar .objectId
        else Index.lookup ⟨d⟩ path := by
  simp only [declarations] at h
  cases hfields : declareFields registry "" members Dictionary.empty with
  | error e => rw [hfields] at h; cases h
  | ok d =>
    rw [hfields] at h
    simp only [bind, Except.bind] at h
    have hid : d.contains idPath = !(Index.lookup ⟨d⟩ idPath).isUndeclared := by
      have hcontains := @Index.contains_iff ⟨d⟩ idPath
      rw [Bool.eq_iff_iff, Bool.not_eq_true']
      exact hcontains
    refine ⟨d, rfl, fun path => ?_⟩
    split at h
    · rename_i himplicit
      cases h
      rw [hid, Bool.not_not, Bool.and_eq_true] at himplicit
      split
      · rename_i hpath
        rw [hpath.1.2]
        exact Index.lookup_insert_self
      · rename_i hpath
        refine Index.lookup_insert_of_ne fun heq => hpath ?_
        rw [heq]
        exact ⟨⟨himplicit.1, rfl⟩, himplicit.2⟩
    · rename_i himplicit
      cases h
      rw [hid, Bool.not_not, Bool.and_eq_true] at himplicit
      refine (if_neg ?_).symm
      rintro ⟨⟨hoption, rfl⟩, hundeclared⟩
      exact himplicit ⟨hoption, hundeclared⟩

/-- An index that a definition was compiled to says of every path what the definition says of it:
the kind of the node that the segments of the path lead to. It has one path more at most. -/
theorem lookup_described {registry : Registry} {options : CompileOptions} {definition : Value}
    {index : Index} (h : compile registry options definition = .ok index)
    (hdistinct : definition.hasDistinctNames = true) (hapart : hasNamesApart definition = true)
    (path : String) :
    index.lookup path =
        (match nodeAt? definition (segmentsOf path) with
        | some node => kind registry node
        | none =>
          if options.implicitId = true ∧ path = idPath then .scalar .objectId else .undeclared) ∧
      ((index.lookup path).isUndeclared = true ↔ nodeAt? definition (segmentsOf path) = none ∧
        ¬ (options.implicitId = true ∧ path = idPath)) := by
  cases definition with
  | object members =>
    obtain ⟨d, hfields, hlookup⟩ := lookup_of_declarations (paths_of_compile h)
    obtain ⟨hreached, hlost⟩ := lookup_of_declareFields hfields hdistinct hapart path
    rw [hlookup path]
    cases hnode : nodeAt? (.object members) (segmentsOf path) with
    | some node =>
      obtain ⟨hkind, hdeclared⟩ := hreached node hnode
      rw [hkind, if_neg fun hundeclared => by rw [hdeclared] at hundeclared; cases hundeclared.2]
      exact ⟨rfl, by simp [hdeclared]⟩
    | none =>
      rw [hlost hnode]
      by_cases hid : options.implicitId = true ∧ path = idPath
      · rw [if_pos ⟨hid, rfl⟩]
        exact ⟨(if_pos hid).symm, by simp [hid, Lookup.isUndeclared]⟩
      · rw [if_neg fun hboth => hid hboth.1]
        exact ⟨(if_neg hid).symm, by simp [hid, Lookup.isUndeclared]⟩
  | _ =>
    have hpaths := paths_of_compile h
    simp only [declarations] at hpaths
    cases hpaths

/-- The name is typed beside one of its fields. What is said about the band is no field. -/
theorem lookup_described_typed :
    let definition : Value := .object [
      ("name", .object [("$type", .object [("first", .string "String")]),
        ("last", .string "String")]),
      ("points", .object [("$type", .array [.array [.string "Number"]])]),
      ("band", .object [("$lookUp", .object [("ref", .string "Band")])])]
    ∃ index, compile Registry.builtin {} definition = .ok index ∧
      definition.hasDistinctNames = true ∧ hasNamesApart definition = true ∧
      index.lookup "name.first" = .scalar .string ∧ index.lookup "name.last" = .scalar .string ∧
      index.lookup "points.$" = .array ∧ index.lookup "band" = .untyped ∧
      index.lookup "band.$lookUp" = .undeclared ∧ index.lookup "_id" = .scalar .objectId := by
  intro definition
  cases hcompile : compile Registry.builtin {} definition with
  | error e =>
    have hok : (compile Registry.builtin {} definition).toOption.isSome = true := by decide +kernel
    rw [hcompile] at hok
    cases hok
  | ok index =>
    have hlookup := fun path => (lookup_described hcompile (by decide) (by decide) path).1
    exact ⟨index, rfl, by decide, by decide, hlookup _, hlookup _, hlookup _, hlookup _, hlookup _,
      hlookup _⟩

end Definition

end TypedDocs
