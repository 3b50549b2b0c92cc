import TypedDocs.Proofs.Dictionary
import TypedDocs.Proofs.Schema.Described
import TypedDocs.Proofs.Schema.FieldNames

/-!
# Definitions that leave paths without their container

A type may describe fields, and more fields may stand beside it. If a field beside the type
has the name of one inside it, then its own paths are declared in the place of the others,
and those it does not have itself stay declared below it. So a definition can be taken in as
a whole and still be refused at the end. What is declared in any case is read off the
definition here, hidden fields included.
-/

namespace TypedDocs

/-- The complaint that a path stands below no container that could hold it. -/
def SchemaError.isOrphan : SchemaError → Bool
  | orphanPath .. => true
  | _ => false

/-- What has to stand above a segment. -/
def Lookup.holding (s : String) : Lookup := .ofDeclared (some (Index.requiredParent s))

theorem Lookup.holding_eq (s : String) : holding s = .array ∨ holding s = .object := by
  unfold holding Index.requiredParent
  split
  · exact .inl rfl
  · exact .inr rfl

theorem Index.any_typeOf?_requiredParent {d : Declarations} {key s : String} :
    (d.typeOf? key).any (· == requiredParent s) = true ↔ lookup ⟨d⟩ key = .holding s := by
  rw [lookup_eq, Declarations.typeOf?, Lookup.holding]
  cases d.get? key with
  | none => unfold requiredParent; split <;> simp [Lookup.ofDeclared]
  | some declared =>
    cases declared with
    | none => unfold requiredParent; split <;> simp [Lookup.ofDeclared]
    | some t => unfold requiredParent; cases t <;> split <;> simp [Lookup.ofDeclared] <;> rfl

namespace Definition

mutual
/-- What a node says of the segments below it. What stands beside a type is heard first. -/
def nodeSays (registry : Registry) : Value → List String → Option Lookup
  | .string name, segments =>
    if segments = [] then (registry.resolve name).map fun t => .ofDeclared (some t) else none
  | .array [element], segments =>
    if segments = [] then some .array else foundBelow wildcard (nodeSays registry element) segments
  | .array _, segments => if segments = [] then some .array else none
  | .object members, segments =>
    (fieldsSay registry members segments).or
      (if (typeNode? members).isSome then typeSays registry members segments
      else if segments = [] then some (if hasFields members then .object else .untyped)
      else none)
  | _, _ => none
/-- What the value of the type key says. -/
def typeSays (registry : Registry) : List (String × Value) → List String → Option Lookup
  | [], _ => none
  | (key, node) :: rest, segments =>
    if key = typeKey then nodeSays registry node segments else typeSays registry rest segments
/-- What the fields say of the segments below their object. Of two of one name the later counts. -/
def fieldsSay (registry : Registry) : List (String × Value) → List String → Option Lookup
  | [], _ => none
  | (key, node) :: rest, segments =>
    (fieldsSay registry rest segments).or
      (if isOperator key then none else foundBelow key (nodeSays registry node) segments)
end

/-- What a definition says of a path. -/
def saysOfPath (registry : Registry) : Value → String → Option Lookup
  | .object members, path => fieldsSay registry members (keySegments path)
  | _, _ => none

/-- A path one segment longer than `parent` is described, and `parent` is not described as what
holds such a segment. -/
structure IsOrphan (registry : Registry) (definition : Value) (parent s : String) : Prop where
  parent_ne_empty : parent ≠ ""
  segment : s = wildcard ∨ IsFieldName s
  described : (saysOfPath registry definition (join parent s)).isSome = true
  misplaced : saysOfPath registry definition parent ≠ some (.holding s)

section Describing

variable {registry : Registry} {members : Fields} {segments : List String}

theorem typeSays_eq {t : Value} (h : typeNode? members = some t) :
    typeSays registry members segments = nodeSays registry t segments := by
  induction members with
  | nil => cases h
  | cons m rest ih =>
    obtain ⟨key, node⟩ := m
    rw [typeNode?, Fields.get?] at h
    rw [typeSays]
    split at h
    · rename_i hkey
      cases h
      rw [if_pos hkey]
    · rename_i hkey
      rw [if_neg hkey]
      exact ih h

theorem fieldsSay_cons {key : String} {node : Value} {rest : Fields} (hkey : IsFieldName key) :
    fieldsSay registry ((key, node) :: rest) = fun segments =>
      (fieldsSay registry rest segments).or (foundBelow key (nodeSays registry node) segments) := by
  funext segments
  rw [fieldsSay, if_neg (by simp [hkey.plain])]

theorem fieldsSay_operator {key : String} {node : Value} {rest : Fields}
    (hkey : isOperator key = true) :
    fieldsSay registry ((key, node) :: rest) = fieldsSay registry rest := by
  funext segments
  rw [fieldsSay, if_pos hkey, Option.or_none]

theorem nodeSays_object (htype : typeNode? members = none) :
    nodeSays registry (.object members) = fun segments => (fieldsSay registry members segments).or
      (if segments = [] then some (if hasFields members then .object else .untyped) else none) := by
  funext segments
  rw [nodeSays, htype]
  rfl

theorem nodeSays_typed {t : Value} (htype : typeNode? members = some t) :
    nodeSays registry (.object members) = fun segments =>
      (fieldsSay registry members segments).or (nodeSays registry t segments) := by
  funext segments
  rw [nodeSays, htype, typeSays_eq htype]
  rfl

theorem fieldsSay_of_no_fields (h : hasFields members = false) :
    fieldsSay registry members = fun _ => none := by
  induction members with
  | nil => funext segments; rw [fieldsSay]
  | cons m rest ih =>
    obtain ⟨key, node⟩ := m
    simp only [hasFields, List.any_cons, Bool.or_eq_false_iff, Bool.not_eq_false'] at h
    rw [fieldsSay_operator h.1]
    exact ih h.2

/-- Declaring a node declares what it says, and no name has to be apart from another for this. -/
theorem describes_nodeSays (registry : Registry) :
    Cases registry (fun path node d d' => Describes path (nodeSays registry node) d d')
      (fun base members d d' => Describes base (fieldsSay registry members) d d') where
  named {path name t d} ht := by
    refine (Describes.insert path d (some t)).congr fun segments => ?_
    rw [nodeSays, ht]
    rfl
  emptyArray {path d} := by
    refine (Describes.insert path d (some .array)).congr fun segments => ?_
    rw [nodeSays]
    · rfl
    · simp
  array {path element d d'} h := by
    refine ((Describes.insert path d (some .array)).trans
      (h.below wildcard_undotted (by decide))).congr fun segments => ?_
    rw [nodeSays]
    by_cases hsegments : segments = []
    · rw [hsegments]
      rfl
    · simp [hsegments]
  typed {path members t d d'} ht h hfields := by
    rw [nodeSays_typed ht, fieldsSay_of_no_fields hfields]
    exact h
  typedFields ht h _ _ hfields := by
    rw [nodeSays_typed ht]
    exact h.trans hfields
  object {path members d d'} ht hany h := by
    rw [nodeSays_object ht, hany]
    exact (Describes.insert path d (some .object)).trans h
  untyped {path members d} ht hany := by
    rw [nodeSays_object ht, hany, fieldsSay_of_no_fields hany]
    exact Describes.insert path d none
  noFields {base d} := by
    rw [fieldsSay_of_no_fields rfl]
    exact .nothing
  skipped hkey h := by
    rw [fieldsSay_operator hkey]
    exact h
  field hkey hnode h := by
    rw [fieldsSay_cons hkey]
    exact (hnode.below hkey.undotted hkey.nonempty).trans h

end Describing

section Housing

variable {registry : Registry} {members : Fields} {s : String} {below : List String}

/-- Whatever is described below a first segment stands below what holds it. -/
def HousedBelow (found : List String → Option Lookup) : Prop :=
  ∀ t segments s, (found (t :: (segments ++ [s]))).isSome = true →
    found (t :: segments) = some (.holding s)

/-- There is something here, and whatever is described stands below what holds it. -/
structure Housed (found : List String → Option Lookup) : Prop where
  here : ∃ l, found [] = some l ∧ ∀ s, (found [s]).isSome = true → l = .holding s
  below : HousedBelow found

theorem Housed.holds {found : List String → Option Lookup} (h : Housed found)
    (segments : List String) {s : String} (hs : (found (segments ++ [s])).isSome = true) :
    found segments = some (.holding s) := by
  cases segments with
  | nil =>
    obtain ⟨l, hl, hroot⟩ := h.here
    rw [hl, hroot s hs]
  | cons t rest => exact h.below t rest s hs

/-- A place with nothing below it. -/
theorem Housed.leaf (l : Lookup) : Housed fun segments => if segments = [] then some l else none where
  here := ⟨l, if_pos rfl, fun s hs => by simp at hs⟩
  below t segments s hs := by simp at hs

theorem HousedBelow.foundBelow {found : List String → Option Lookup} (h : Housed found)
    (name : String) : HousedBelow (foundBelow name found) := by
  intro t segments s hs
  rw [Definition.foundBelow] at hs ⊢
  split at hs
  · rename_i heq
    rw [if_pos heq]
    exact h.holds _ hs
  · cases hs

/-- Fields beside an object hide nothing of it, if none of them begins what it has itself. -/
theorem Housed.beside {own inner : List String → Option Lookup} (hown : HousedBelow own)
    (hinner : Housed inner) (hobject : inner [] = some .object) (hroot : own [] = none)
    (hfirst : ∀ s, (own [s]).isSome = true → Lookup.holding s = .object)
    (hapart : ∀ t segments more, (own (t :: segments)).isSome = true → inner (t :: more) = none) :
    Housed fun segments => (own segments).or (inner segments) where
  here := by
    refine ⟨.object, by rw [hroot, hobject]; rfl, fun s hs => ?_⟩
    rw [Option.isSome_or, Bool.or_eq_true] at hs
    rcases hs with hs | hs
    · exact (hfirst s hs).symm
    · exact Option.some.inj (hobject.symm.trans (hinner.holds [] hs))
  below t segments s hs := by
    rw [Option.isSome_or, Bool.or_eq_true] at hs
    show (own (t :: segments)).or (inner (t :: segments)) = some (.holding s)
    rcases hs with hs | hs
    · rw [hown t segments s hs]
      rfl
    · -- What the fields hide here, they would hide below, too.
      have hnone : own (t :: segments) = none := by
        cases hsaid : own (t :: segments) with
        | none => rfl
        | some l =>
          rw [hapart t segments (segments ++ [s]) (by rw [hsaid]; rfl)] at hs
          cases hs
      rw [hnone, hinner.below t segments s hs]
      rfl

theorem fieldsSay_nil : fieldsSay registry members [] = none := by
  induction members with
  | nil => rw [fieldsSay]
  | cons m rest ih =>
    obtain ⟨key, node⟩ := m
    rw [fieldsSay, ih]
    split <;> rfl

/-- What the fields say begins with the name of one of them. -/
theorem isSome_memberNode?_of_fieldsSay
    (h : (fieldsSay registry members (s :: below)).isSome = true) :
    (memberNode? s members).isSome = true := by
  induction members with
  | nil => rw [fieldsSay] at h; cases h
  | cons m rest ih =>
    obtain ⟨key, node⟩ := m
    unfold memberNode? at ih ⊢
    rw [fieldsSay, Option.isSome_or, Bool.or_eq_true] at h
    rw [Fields.get?]
    rcases h with h | h
    · have hrest := ih h
      split
      · rename_i hs
        rw [if_pos hs] at hrest
        exact hrest
      · rename_i hs
        rw [if_neg hs] at hrest
        split
        · rfl
        · exact hrest
    · split at h
      · cases h
      · rename_i hkey
        rw [foundBelow] at h
        split at h
        · rename_i heq
          subst heq
          simp [hkey]
        · cases h

theorem mem_of_memberNode? (h : (memberNode? s members).isSome = true) :
    isOperator s = false ∧ ∃ node, (s, node) ∈ members := by
  unfold memberNode? at h
  split at h
  · cases h
  · rename_i hs
    obtain ⟨node, hnode⟩ := Option.isSome_iff_exists.1 h
    exact ⟨by simpa using hs, node, Fields.mem_of_get? hnode⟩

mutual
/-- What a node says of a longer path begins with a segment that leads somewhere. -/
theorem isSome_step?_of_nodeSays : ∀ node : Value,
    (nodeSays registry node (s :: below)).isSome = true → (step? s node).isSome = true
  | .array [element], h => by
    rw [nodeSays, if_neg (by simp), foundBelow] at h
    rw [step?, typeChain]
    · simp only [List.findSome?_cons, stepOf?, List.findSome?_nil]
      split at h
      · rename_i heq
        simp [heq]
      · cases h
    · simp
  | .object members, h => by
    have htype := isSome_step?_of_typeSays members
    rw [nodeSays, Option.isSome_or, Bool.or_eq_true] at h
    rw [step?_object, Option.isSome_or, Bool.or_eq_true]
    rcases h with h | h
    · exact .inl (isSome_memberNode?_of_fieldsSay h)
    · split at h
      · obtain ⟨t, ht, hstep⟩ := htype h
        rw [ht]
        exact .inr hstep
      · cases h
  | .string _, h => by rw [nodeSays, if_neg (by simp)] at h; cases h
  | .array [], h => by rw [nodeSays, if_neg (by simp)] at h <;> simp_all
  | .array (_ :: _ :: _), h => by rw [nodeSays, if_neg (by simp)] at h <;> simp_all
  | .null, h => by rw [nodeSays] at h <;> simp_all
  | .bool _, h => by rw [nodeSays] at h <;> simp_all
  | .number _, h => by rw [nodeSays] at h <;> simp_all
theorem isSome_step?_of_typeSays : ∀ members : List (String × Value),
    (typeSays registry members (s :: below)).isSome = true →
      ∃ t, typeNode? members = some t ∧ (step? s t).isSome = true
  | [], h => by rw [typeSays] at h; cases h
  | (key, node) :: rest, h => by
    rw [typeSays] at h
    rw [typeNode?, Fields.get?]
    split at h
    · rename_i hkey
      exact ⟨node, if_pos hkey, isSome_step?_of_nodeSays node h⟩
    · rename_i hkey
      rw [if_neg hkey]
      exact isSome_step?_of_typeSays rest h
end

theorem holding_of_memberNode? (h : (memberNode? s members).isSome = true) :
    Lookup.holding s = .object := by
  have hs : s ≠ wildcard := by
    rintro rfl
    exact absurd (mem_of_memberNode? h).1 (by decide)
  rw [Lookup.holding, Index.requiredParent, if_neg hs]
  rfl

theorem nodeSays_of_no_step {node : Value} (h : step? s node = none) :
    nodeSays registry node (s :: below) = none := by
  cases hsaid : nodeSays registry node (s :: below) with
  | none => rfl
  | some l =>
    have hleads := isSome_step?_of_nodeSays node (by rw [hsaid]; rfl)
    rw [h] at hleads
    cases hleads

theorem housed_array {element : Value} (h : Housed (nodeSays registry element)) :
    Housed (nodeSays registry (.array [element])) where
  here := by
    refine ⟨.array, by rw [nodeSays, if_pos rfl], fun s hs => ?_⟩
    rw [nodeSays, if_neg (by simp), foundBelow] at hs
    split at hs
    · rename_i heq
      rw [heq]
      rfl
    · cases hs
  below t segments s hs := by
    rw [nodeSays, if_neg (by simp)] at hs ⊢
    exact HousedBelow.foundBelow h wildcard t segments s hs

/-- A field is not hidden by the later ones, if none of them has its name. -/
theorem housedBelow_cons {key : String} {node : Value} {rest : Fields} (hkey : IsFieldName key)
    (hnew : key ∉ rest.map Prod.fst) (hnode : Housed (nodeSays registry node))
    (hrest : HousedBelow (fieldsSay registry rest)) :
    HousedBelow (fieldsSay registry ((key, node) :: rest)) := by
  intro t segments s hs
  rw [fieldsSay_cons hkey] at hs ⊢
  simp only [Option.isSome_or, Bool.or_eq_true] at hs ⊢
  rcases hs with hs | hs
  · rw [hrest t segments s hs]
    rfl
  · have ht : t = key := by
      rw [foundBelow] at hs
      split at hs
      · rename_i heq
        exact heq
      · cases hs
    have hnone : fieldsSay registry rest (t :: segments) = none := by
      cases hlater : fieldsSay registry rest (t :: segments) with
      | none => rfl
      | some l =>
        have hfirst : (fieldsSay registry rest (t :: segments)).isSome = true := by
          rw [hlater]
          rfl
        obtain ⟨-, n, hmem⟩ := mem_of_memberNode? (isSome_memberNode?_of_fieldsSay hfirst)
        rw [ht] at hmem
        exact absurd (List.mem_map.2 ⟨_, hmem, rfl⟩) hnew
    rw [hnone, HousedBelow.foundBelow hnode key t segments s hs]
    rfl

/-- Where names are apart, what a node says is housed: no field hides the container of another. -/
theorem housed_nodeSays (registry : Registry) :
    Cases registry
      (fun path node d d' => Describes path (nodeSays registry node) d d' ∧
        (node.hasDistinctNames = true → namesApart node = true → Housed (nodeSays registry node)))
      (fun base members d d' => Describes base (fieldsSay registry members) d d' ∧
        ((Value.object members).hasDistinctNames = true → namesApartInFields members = true →
          HousedBelow (fieldsSay registry members))) where
  named {path name t d} ht := by
    refine ⟨(describes_nodeSays registry).named ht, fun _ _ => ?_⟩
    have hleaf := Housed.leaf (.ofDeclared (some t))
    have heq : nodeSays registry (.string name) =
        fun segments => if segments = [] then some (.ofDeclared (some t)) else none := by
      funext segments
      rw [nodeSays, ht]
      rfl
    rwa [heq]
  emptyArray {path d} := by
    refine ⟨(describes_nodeSays registry).emptyArray, fun _ _ => ?_⟩
    have heq : nodeSays registry (.array []) =
        fun segments => if segments = [] then some .array else none := by
      funext segments
      rw [nodeSays]
      simp
    rw [heq]
    exact .leaf .array
  array {path element d d'} h := by
    refine ⟨(describes_nodeSays registry).array h.1, fun hdistinct hapart => ?_⟩
    simp only [Value.hasDistinctNames, Value.everyObject, Value.everyObjectOfItems,
      Bool.and_true] at hdistinct
    simp only [namesApart, namesApartInItems, Bool.and_true] at hapart
    exact housed_array (h.2 hdistinct hapart)
  typed {path members t d d'} ht h hfields := by
    refine ⟨(describes_nodeSays registry).typed ht h.1 hfields, fun hdistinct hapart => ?_⟩
    obtain ⟨-, htype, -⟩ := apart_of_typed ht hapart
    rw [nodeSays_typed ht, fieldsSay_of_no_fields hfields]
    exact h.2 (distinct_of_typeNode? ht hdistinct) htype
  typedFields {path members t d d₁ d'} ht h hany hobject hfields := by
    refine ⟨(describes_nodeSays registry).typedFields ht h.1 hany hobject hfields.1,
      fun hdistinct hapart => ?_⟩
    obtain ⟨hnames, htype, hrest⟩ := apart_of_typed ht hapart
    have hinner := h.2 (distinct_of_typeNode? ht hdistinct) htype
    rw [nodeSays_typed ht]
    refine Housed.beside (hfields.2 hdistinct hrest) hinner ?_ fieldsSay_nil
      (fun s hs => holding_of_memberNode? (isSome_memberNode?_of_fieldsSay hs))
      fun u segments more hu => ?_
    · -- The type has been seen to be declared as an object.
      obtain ⟨l, hl, -⟩ := hinner.here
      have hlookup := h.1.inside [] l hl path (by simp)
      rw [(@Index.lookup_of_typeOf? ⟨d₁⟩ path .object hobject).2 rfl] at hlookup
      rw [hl, hlookup]
    · obtain ⟨hplain, node, hmem⟩ := mem_of_memberNode? (isSome_memberNode?_of_fieldsSay hu)
      exact nodeSays_of_no_step (hnames (u, node) hmem hplain)
  object {path members d d'} ht hany h := by
    refine ⟨(describes_nodeSays registry).object ht hany h.1, fun hdistinct hapart => ?_⟩
    simp only [namesApart, Bool.and_eq_true] at hapart
    rw [nodeSays_object ht, hany]
    refine Housed.beside (h.2 hdistinct hapart.2) (.leaf .object) rfl fieldsSay_nil
      (fun s hs => holding_of_memberNode? (isSome_memberNode?_of_fieldsSay hs)) ?_
    intro u segments more _
    exact if_neg (by simp)
  untyped {path members d} ht hany := by
    refine ⟨(describes_nodeSays registry).untyped ht hany, fun _ _ => ?_⟩
    rw [nodeSays_object ht, hany, fieldsSay_of_no_fields hany]
    exact .leaf .untyped
  noFields {base d} := by
    refine ⟨(describes_nodeSays registry).noFields, fun _ _ t segments s hs => ?_⟩
    rw [fieldsSay] at hs
    cases hs
  skipped {base key node rest d d'} hkey h := by
    refine ⟨(describes_nodeSays registry).skipped hkey h.1, fun hdistinct hapart => ?_⟩
    simp only [namesApartInFields, Bool.and_eq_true] at hapart
    rw [fieldsSay_operator hkey]
    exact h.2 (Value.distinct_cons hdistinct).2.2 hapart.2
  field {base key node rest d d₁ d'} hkey hnode h := by
    refine ⟨(describes_nodeSays registry).field hkey hnode.1 h.1, fun hdistinct hapart => ?_⟩
    obtain ⟨hnew, hvalue, hrest⟩ := Value.distinct_cons hdistinct
    simp only [namesApartInFields, hkey.plain, Bool.false_or, Bool.and_eq_true] at hapart
    exact housedBelow_cons hkey hnew (hnode.2 hvalue hapart.1) (h.2 hrest hapart.2)

end Housing

section Errors

variable {registry : Registry} {options : CompileOptions} {definition : Value} {e : SchemaError}

mutual
/-- What is wrong with a node is found where it stands. -/
theorem not_orphan_of_declareNode : ∀ (node : Value) {path : String} {d : Declarations},
    declareNode registry path node d = .error e → e.isOrphan = false
  | .string name, path, d, h => by
    simp only [declareNode] at h
    split at h
    · cases h
    · cases h
      rfl
  | .array [], path, d, h => by simp only [declareNode] at h; cases h
  | .array [element], path, d, h => by
    simp only [declareNode] at h
    exact not_orphan_of_declareNode element h
  | .array (_ :: _ :: _), path, d, h => by simp only [declareNode] at h; cases h; rfl
  | .object members, path, d, h => by
    have hfields : ∀ {d}, declareFields registry path members d = .error e → e.isOrphan = false :=
      fun h => not_orphan_of_declareFields members h
    simp only [declareNode] at h
    split at h
    · rename_i typed htyped
      cases typed with
      | error e' =>
        cases h
        exact not_orphan_of_declareTyped members htyped
      | ok d₁ =>
        simp only [bind, Except.bind] at h
        split at h
        · split at h
          · exact hfields h
          · cases h
            rfl
        · cases h
    · split at h
      · exact hfields h
      · cases h
  | .null, path, d, h => by simp only [declareNode] at h; cases h; rfl
  | .bool _, path, d, h => by simp only [declareNode] at h; cases h; rfl
  | .number _, path, d, h => by simp only [declareNode] at h; cases h; rfl
theorem not_orphan_of_declareTyped : ∀ (members : List (String × Value)) {path : String}
    {d : Declarations}, declareTyped registry path members d = some (.error e) →
      e.isOrphan = false
  | [], path, d, h => by simp only [declareTyped] at h; cases h
  | (key, node) :: rest, path, d, h => by
    simp only [declareTyped] at h
    split at h
    · exact not_orphan_of_declareNode node (Option.some.inj h)
    · exact not_orphan_of_declareTyped rest h
theorem not_orphan_of_declareFields : ∀ (members : List (String × Value)) {base : String}
    {d : Declarations}, declareFields registry base members d = .error e → e.isOrphan = false
  | [], base, d, h => by simp only [declareFields] at h; cases h
  | (key, node) :: rest, base, d, h => by
    simp only [declareFields] at h
    split at h
    · exact not_orphan_of_declareFields rest h
    · split at h
      · cases h
        rfl
      · cases hnode : declareNode registry (join base key) node d with
        | error e' =>
          rw [hnode] at h
          cases h
          exact not_orphan_of_declareNode node hnode
        | ok d₁ =>
          rw [hnode] at h
          exact not_orphan_of_declareFields rest h
end

theorem not_orphan_of_declarations (h : declarations registry options definition = .error e) :
    e.isOrphan = false := by
  cases definition with
  | object members =>
    simp only [declarations] at h
    cases hfields : declareFields registry "" members Dictionary.empty with
    | error e' =>
      rw [hfields] at h
      cases h
      exact not_orphan_of_declareFields members hfields
    | ok d =>
      rw [hfields] at h
      simp only [bind, Except.bind] at h
      split at h <;> cases h
  | _ =>
    simp only [declarations] at h
    cases h
    rfl

/-- An orphan comes to light when the index is built, and never before. -/
theorem compile_eq_error_orphan {path parent expected : String} :
    compile registry options definition = .error (.orphanPath path parent expected) ↔
      ∃ d, declarations registry options definition = .ok d ∧
        Index.build d = .error (.orphanPath path parent expected) := by
  unfold compile
  cases hd : declarations registry options definition with
  | error e =>
    refine ⟨fun h => ?_, fun ⟨d, hok, _⟩ => by cases hok⟩
    cases h
    cases not_orphan_of_declarations hd
  | ok d =>
    refine ⟨fun h => ⟨d, rfl, h⟩, fun ⟨d', hok, h⟩ => ?_⟩
    cases hok
    exact h

end Errors

section Paths

/-- A declared path is a name, or ends below another one. -/
theorem dotted_or_top {path : String} (h : DeclaredPath path) :
    '.' ∉ path.toList ∨ ∃ base s, base ≠ "" ∧ (s = wildcard ∨ IsFieldName s) ∧
      path = join base s := by
  cases h with
  | top hname => exact .inl hname.undotted
  | field hbase hname => exact .inr ⟨_, _, hbase.ne_empty, .inr hname, rfl⟩
  | item hbase => exact .inr ⟨_, _, hbase.ne_empty, .inl rfl, rfl⟩

theorem undotted_segment {s : String} (h : s = wildcard ∨ IsFieldName s) : '.' ∉ s.toList := by
  rcases h with rfl | hname
  · exact wildcard_undotted
  · exact hname.undotted

theorem declaredPath_of_mem_keys {registry : Registry} {options : CompileOptions}
    {definition : Value} {d : Declarations} (h : declarations registry options definition = .ok d)
    {path : String} (hpath : path ∈ d.keys) : DeclaredPath path := by
  have hall : AllPaths DeclaredPath d :=
    declarations_induction (Q := AllPaths DeclaredPath)
      (fun _ _ _ hpath _ hd => hd.insert hpath _) (fun _ hnone => by cases hnone) h
  obtain ⟨⟨_, declared⟩, hbinding, rfl⟩ := List.mem_map.1 hpath
  refine hall _ ?_
  rw [Dictionary.contains, Dictionary.get?_of_mem_bindings hbinding]
  rfl

end Paths

section Built

variable {registry : Registry} {options : CompileOptions} {definition : Value} {d : Declarations}
  (h : declarations registry options definition = .ok d)
include h

/-- What is declared is what the definition says, and the implicit identifier. -/
theorem lookup_of_saysOfPath (path : String) :
    (∀ l, saysOfPath registry definition path = some l →
        Index.lookup ⟨d⟩ path = l ∧ l.isUndeclared = false) ∧
      (saysOfPath registry definition path = none →
        Index.lookup ⟨d⟩ path =
          if options.implicitId = true ∧ path = idPath then .scalar .objectId else .undeclared) := by
  cases definition with
  | object members =>
    obtain ⟨d₁, hfields, hlookup⟩ := lookup_of_declarations h
    have hdescribes := (describes_nodeSays registry).fields members hfields
    rw [hlookup path]
    refine ⟨fun l hl => ?_, fun hnone => ?_⟩
    · have hdeclared := hdescribes.declared _ l hl
      rw [hdescribes.inside _ l hl path rfl, hdeclared, if_neg (by simp)]
      exact ⟨rfl, rfl⟩
    · have hlost : Index.lookup ⟨d₁⟩ path = .undeclared := by
        refine hdescribes.outside path fun segments hkey => ?_
        have hsegments : keySegments path = segments := hkey
        rw [← hsegments]
        exact hnone
      rw [hlost]
      by_cases hid : options.implicitId = true ∧ path = idPath
      · rw [if_pos ⟨hid, rfl⟩, if_pos hid]
      · rw [if_neg fun hboth => hid hboth.1, if_neg hid]
  | _ => simp only [declarations] at h; cases h

/-- A dotted path is declared exactly if the definition says something of it. -/
theorem mem_keys_iff {path : String} (hdotted : '.' ∈ path.toList) :
    path ∈ d.keys ↔ (saysOfPath registry definition path).isSome = true := by
  have hkeys : path ∈ d.keys ↔ (Index.lookup ⟨d⟩ path).isUndeclared = false :=
    Dictionary.mem_keys_iff.trans Index.contains_iff
  have hid : path ≠ idPath := by
    rintro rfl
    exact absurd hdotted (by decide)
  obtain ⟨hsaid, hunsaid⟩ := lookup_of_saysOfPath h path
  rw [hkeys]
  cases hl : saysOfPath registry definition path with
  | some l =>
    obtain ⟨hlookup, hdeclared⟩ := hsaid l hl
    simp [hlookup, hdeclared]
  | none =>
    rw [hunsaid hl, if_neg fun himplicit => hid himplicit.2]
    simp [Lookup.isUndeclared]

/-- A path is declared as a container exactly if the definition says so. -/
theorem typeOf?_requiredParent_iff (parent s : String) :
    (d.typeOf? parent).any (· == Index.requiredParent s) = true ↔
      saysOfPath registry definition parent = some (.holding s) := by
  obtain ⟨hsaid, hunsaid⟩ := lookup_of_saysOfPath h parent
  rw [Index.any_typeOf?_requiredParent]
  constructor
  · intro hlookup
    cases hl : saysOfPath registry definition parent with
    | some l => rw [← hlookup, (hsaid l hl).1]
    | none =>
      -- The implicit identifier holds nothing.
      rw [hunsaid hl] at hlookup
      rcases Lookup.holding_eq s with hs | hs <;> rw [hs] at hlookup <;> split at hlookup <;>
        cases hlookup
  · intro hl
    exact (hsaid _ hl).1

/-- The paths that are complained about are those of orphans. -/
theorem orphan?_iff {path : String} (hpath : path ∈ d.keys) (e : SchemaError) :
    Index.orphan? d path = some e ↔ ∃ parent s, IsOrphan registry definition parent s ∧
      path = join parent s ∧ e = .orphanPath path parent (Index.requiredParent s).name := by
  rcases dotted_or_top (declaredPath_of_mem_keys h hpath) with hundotted |
    ⟨base, t, hbase, ht, rfl⟩
  · have hnone : Index.orphan? d path = none := by
      simp [Index.orphan?, parentOf?, segmentsOf_of_undotted hundotted]
    rw [hnone]
    constructor
    · intro hsome
      cases hsome
    · rintro ⟨parent, s, horphan, rfl, -⟩
      exact absurd (dotted_join horphan.parent_ne_empty) hundotted
  · have hundotted : '.' ∉ t.toList := undotted_segment ht
    have hdescribed := (mem_keys_iff h (dotted_join hbase)).1 hpath
    have hmisplaced := not_congr (typeOf?_requiredParent_iff h base t)
    rw [Index.orphan?, parentOf?_join hbase hundotted]
    constructor
    · intro hsome
      simp only [Option.ite_none_left_eq_some, Option.some.injEq] at hsome
      exact ⟨base, t, ⟨hbase, ht, hdescribed, hmisplaced.1 hsome.1⟩, rfl, hsome.2.symm⟩
    · rintro ⟨parent, s, horphan, heq, rfl⟩
      obtain ⟨rfl, rfl⟩ := join_injective hundotted (undotted_segment horphan.segment) heq
      exact if_neg (hmisplaced.2 horphan.misplaced)

end Built

section Refused

variable {registry : Registry} {options : CompileOptions} {definition : Value} {d : Declarations}

theorem build_eq_error_iff {e : SchemaError} :
    Index.build d = .error e ↔ d.keys.findSome? (Index.orphan? d) = some e := by
  unfold Index.build
  split
  · rename_i e' he
    rw [he]
    simp
  · rename_i hnone
    rw [hnone]
    simp

/-- Where names are apart, nothing is described without what holds it. -/
theorem not_isOrphan (h : declarations registry options definition = .ok d)
    (hdistinct : definition.hasDistinctNames = true) (hapart : hasNamesApart definition = true)
    (parent s : String) : ¬ IsOrphan registry definition parent s := by
  rintro ⟨hparent, hs, hdescribed, hmisplaced⟩
  cases definition with
  | object members =>
    obtain ⟨d₁, hfields, -⟩ := lookup_of_declarations h
    have hhoused := ((housed_nodeSays registry).fields members hfields).2 hdistinct hapart
    have hne : s ≠ "" := by
      rcases hs with rfl | hname
      · decide
      · exact hname.nonempty
    simp only [saysOfPath] at hdescribed hmisplaced
    rw [keySegments_join (undotted_segment hs) hne] at hdescribed
    cases hsegments : keySegments parent with
    | nil =>
      have hroot : keySegments "" = [] := rfl
      exact hparent (keySegments_injective (hsegments.trans hroot.symm))
    | cons t rest =>
      rw [hsegments] at hdescribed hmisplaced
      exact hmisplaced (hhoused t rest s hdescribed)
  | _ => simp only [declarations] at h; cases h

/-- A definition can be taken in piece by piece and be refused at the end: exactly if it leaves an
orphan. It leaves none where no field beside a type has the name of one inside it. -/
theorem compile_orphan_iff (registry : Registry) (options : CompileOptions) (definition : Value) :
    (∀ path parent expected,
      compile registry options definition = .error (.orphanPath path parent expected) →
        ∃ s, IsOrphan registry definition parent s ∧ path = join parent s ∧
          expected = (Index.requiredParent s).name) ∧
    ((∃ path parent expected,
      compile registry options definition = .error (.orphanPath path parent expected)) ↔
        (∃ d, declarations registry options definition = .ok d) ∧
          ∃ parent s, IsOrphan registry definition parent s) ∧
    (definition.hasDistinctNames = true → hasNamesApart definition = true →
      (∃ index, compile registry options definition = .ok index) ∨
      (∃ path name, compile registry options definition = .error (.unknownType path name)) ∨
      (∃ path fault,
        compile registry options definition = .error (.invalidDefinition path fault))) := by
  have hfound : ∀ path parent expected,
      compile registry options definition = .error (.orphanPath path parent expected) →
        (∃ d, declarations registry options definition = .ok d) ∧
          ∃ s, IsOrphan registry definition parent s ∧ path = join parent s ∧
            expected = (Index.requiredParent s).name := by
    intro path parent expected herror
    obtain ⟨d, hd, hbuild⟩ := compile_eq_error_orphan.1 herror
    obtain ⟨key, hkey, horphan⟩ := List.exists_of_findSome?_eq_some (build_eq_error_iff.1 hbuild)
    obtain ⟨parent', s, hisOrphan, hjoin, heq⟩ := (orphan?_iff hd hkey _).1 horphan
    cases heq
    exact ⟨⟨d, hd⟩, s, hisOrphan, hjoin, rfl⟩
  refine ⟨fun path parent expected herror => (hfound path parent expected herror).2,
    ⟨fun ⟨path, parent, expected, herror⟩ => ?_, fun ⟨⟨d, hd⟩, parent, s, horphan⟩ => ?_⟩,
    fun hdistinct hapart => ?_⟩
  · obtain ⟨hd, s, horphan, -⟩ := hfound path parent expected herror
    exact ⟨hd, parent, s, horphan⟩
  · -- The path of the orphan is complained about, and the first complaint is one of this kind.
    have hmem := (mem_keys_iff hd (dotted_join horphan.parent_ne_empty)).2 horphan.described
    have hcomplaint := (orphan?_iff hd hmem _).2 ⟨parent, s, horphan, rfl, rfl⟩
    cases hfirst : d.keys.findSome? (Index.orphan? d) with
    | none =>
      rw [List.findSome?_eq_none_iff.1 hfirst _ hmem] at hcomplaint
      cases hcomplaint
    | some e =>
      obtain ⟨key, hkey, he⟩ := List.exists_of_findSome?_eq_some hfirst
      obtain ⟨_, _, _, -, rfl⟩ := (orphan?_iff hd hkey e).1 he
      exact ⟨_, _, _, compile_eq_error_orphan.2 ⟨d, hd, build_eq_error_iff.2 hfirst⟩⟩
  · cases hcompile : compile registry options definition with
    | ok index => exact .inl ⟨index, rfl⟩
    | error e =>
      cases e with
      | unknownType path name => exact .inr (.inl ⟨path, name, rfl⟩)
      | invalidDefinition path fault => exact .inr (.inr ⟨path, fault, rfl⟩)
      | orphanPath path parent expected =>
        obtain ⟨⟨d, hd⟩, s, horphan, -⟩ := hfound path parent expected hcompile
        exact absurd horphan (not_isOrphan hd hdistinct hapart parent s)

/-- An object that its type gives the path `x.a.b`, and that has a number of some name beside the
type. -/
def numberBeside (name : String) : Value :=
  .object [("x", .object [("$type", .object [("a", .object [("b", .string "String")])]),
    (name, .string "Number")])]

/-- As `a` the number takes the place of the object and leaves the field of that one, as `c` it
does not. -/
theorem compile_orphan_hidden :
    compile Registry.builtin {} (numberBeside "a") =
        .error (.orphanPath "x.a.b" "x.a" "Object") ∧
      (∃ s, IsOrphan Registry.builtin (numberBeside "a") "x.a" s ∧ "x.a.b" = join "x.a" s) ∧
      (numberBeside "c").hasDistinctNames = true ∧ hasNamesApart (numberBeside "c") = true ∧
      ∃ index, compile Registry.builtin {} (numberBeside "c") = .ok index := by
  have herror : compile Registry.builtin {} (numberBeside "a") =
      .error (.orphanPath "x.a.b" "x.a" "Object") := by rfl
  have hdistinct : (numberBeside "c").hasDistinctNames = true := by decide
  have hapart : hasNamesApart (numberBeside "c") = true := by decide
  obtain ⟨s, horphan, hjoin, -⟩ :=
    (compile_orphan_iff Registry.builtin {} (numberBeside "a")).1 _ _ _ herror
  refine ⟨herror, ⟨s, horphan, hjoin⟩, hdistinct, hapart, ?_⟩
  have hsome : (compile Registry.builtin {} (numberBeside "c")).toOption.isSome = true := by rfl
  rcases (compile_orphan_iff Registry.builtin {} (numberBeside "c")).2.2 hdistinct hapart with
    hok | ⟨path, name, herror⟩ | ⟨path, fault, herror⟩
  · exact hok
  · rw [herror] at hsome
    cases hsome
  · rw [herror] at hsome
    cases hsome

end Refused

end Definition

end TypedDocs
