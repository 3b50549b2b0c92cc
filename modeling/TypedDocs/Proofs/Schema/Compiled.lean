import TypedDocs.Schema.Definition
import TypedDocs.Proofs.Scalar.Lawful

/-!
# What compiling a definition can declare

Every insertion made while a definition is compiled has a path made of field names
and wildcards, and a type that is a container or comes from the registry. The
induction principle below carries any property that such insertions preserve to
the finished index. It does not say that every such path is declared.
-/

namespace TypedDocs

/-- The scalar rules of the index are built-in ones, whatever texts are dates and patterns. -/
def Index.HasBuiltinRules (index : Index) : Prop :=
  ∀ ⦃key : String⦄ ⦃t : ScalarType⦄, index.lookup key = .scalar t → t.IsBuiltin

/-- The registry offers only built-in rules, under whatever names and whatever texts are dates and
patterns. -/
def Registry.HasBuiltinRules (registry : Registry) : Prop :=
  ∀ ⦃name : String⦄ ⦃t : ScalarType⦄, registry.get? name = some t → t.IsBuiltin

theorem Index.HasBuiltinRules.lawful {index : Index} (h : index.HasBuiltinRules) {key : String}
    {t : ScalarType} (hl : index.lookup key = .scalar t) : t.Lawful :=
  (h hl).lawful

theorem Registry.get?_foldl_register {registry : Registry} {types : List ScalarType}
    {name : String} {t : ScalarType}
    (h : (types.foldl Registry.register registry).get? name = some t) :
    t ∈ types ∨ registry.get? name = some t := by
  induction types generalizing registry with
  | nil => exact .inr h
  | cons first rest ih =>
    rcases ih h with hrest | hregister
    · exact .inl (List.mem_cons_of_mem _ hrest)
    · rw [register, Dictionary.get?_insert] at hregister
      split at hregister
      · obtain rfl := Option.some.inj hregister
        exact .inl List.mem_cons_self
      · exact .inr hregister

theorem Registry.builtin_hasBuiltinRules : Registry.builtin.HasBuiltinRules := by
  intro name t h
  rcases get?_foldl_register h with hmem | hempty
  · exact ScalarType.isBuiltin_of_mem_builtins hmem
  · cases hempty

namespace Definition

/-- A name under which a definition can describe a field. -/
structure IsFieldName (name : String) : Prop where
  plain : isOperator name = false
  nonempty : name ≠ ""
  undotted : '.' ∉ name.toList

/-- Paths of field names, with wildcards for the items of arrays. -/
inductive DeclaredPath : String → Prop
  | top {name : String} : IsFieldName name → DeclaredPath name
  | field {base name : String} :
      DeclaredPath base → IsFieldName name → DeclaredPath (join base name)
  | item {base : String} : DeclaredPath base → DeclaredPath (join base wildcard)

/-- Scalar types stand in the registry, or are the one of the implicit identifier. -/
def Offered (registry : Registry) (declared : Option DeclaredType) : Prop :=
  ∀ t, declared = some (.scalar t) → t = .objectId ∨ ∃ name, registry.get? name = some t

theorem join_ne_empty {base segment : String} (h : segment ≠ "") : join base segment ≠ "" := by
  unfold join
  split
  · exact h
  · intro he
    have hlen := congrArg String.length he
    simp only [String.length_append] at hlen
    have hdot : (".").length = 1 := by decide
    have hempty : ("").length = 0 := by decide
    omega

theorem DeclaredPath.ne_empty {path : String} (h : DeclaredPath path) : path ≠ "" := by
  cases h with
  | top hname => exact hname.nonempty
  | field _ hname => exact join_ne_empty hname.nonempty
  | item _ => exact join_ne_empty (by decide)

theorem DeclaredPath.join_field {base name : String} (hbase : base = "" ∨ DeclaredPath base)
    (hname : IsFieldName name) : DeclaredPath (join base name) := by
  rcases hbase with rfl | hbase
  · exact .top hname
  · exact .field hbase hname

theorem offered_none (registry : Registry) : Offered registry none := by
  intro t h; cases h

theorem offered_array (registry : Registry) : Offered registry (some .array) := by
  intro t h; cases h

theorem offered_object (registry : Registry) : Offered registry (some .object) := by
  intro t h; cases h

theorem offered_resolve {registry : Registry} {name : String} {declared : DeclaredType}
    (h : registry.resolve name = some declared) : Offered registry (some declared) := by
  intro t ht
  cases ht
  unfold Registry.resolve at h
  split at h
  · cases h
  · split at h
    · cases h
    · obtain ⟨u, hu, heq⟩ := Option.map_eq_some_iff.1 h
      cases heq
      exact .inr ⟨name, hu⟩

/-- A property of declarations that every insertion made by compiling keeps. -/
def Kept (registry : Registry) (Q : Declarations → Prop) : Prop :=
  ∀ ⦃d : Declarations⦄ ⦃path : String⦄ ⦃declared : Option DeclaredType⦄,
    DeclaredPath path → Offered registry declared → Q d → Q (d.insert path declared)

/-- The value of the type key. -/
def typeNode? (members : Fields) : Option Value := Fields.get? members typeKey

/-- The cases of an induction along the declaring of a node and of the fields of an object, over
what has been declared before and after. -/
structure Cases (registry : Registry)
    (onNode : String → Value → Declarations → Declarations → Prop)
    (onFields : String → Fields → Declarations → Declarations → Prop) : Prop where
  named : ∀ {path name t d}, registry.resolve name = some t →
    onNode path (.string name) d (d.insert path (some t))
  emptyArray : ∀ {path d}, onNode path (.array []) d (d.insert path (some .array))
  array : ∀ {path element d d'},
    onNode (join path wildcard) element (d.insert path (some .array)) d' →
    onNode path (.array [element]) d d'
  typed : ∀ {path members t d d'}, typeNode? members = some t → onNode path t d d' →
    hasFields members = false → onNode path (.object members) d d'
  typedFields : ∀ {path members t d d₁ d'}, typeNode? members = some t → onNode path t d d₁ →
    hasFields members = true → (d₁.typeOf? path).any (· == .object) = true →
    onFields path members d₁ d' → onNode path (.object members) d d'
  object : ∀ {path members d d'}, typeNode? members = none → hasFields members = true →
    onFields path members (d.insert path (some .object)) d' → onNode path (.object members) d d'
  untyped : ∀ {path members d}, typeNode? members = none → hasFields members = false →
    onNode path (.object members) d (d.insert path none)
  noFields : ∀ {base d}, onFields base [] d d
  skipped : ∀ {base key node rest d d'}, isOperator key = true → onFields base rest d d' →
    onFields base ((key, node) :: rest) d d'
  field : ∀ {base key node rest d d₁ d'}, IsFieldName key →
    onNode (join base key) node d d₁ → onFields base rest d₁ d' →
    onFields base ((key, node) :: rest) d d'

theorem typeNode?_of_declareTyped {registry : Registry} {path : String} {members : Fields}
    {d : Declarations} (h : declareTyped registry path members d = none) :
    typeNode? members = none := by
  induction members with
  | nil => rfl
  | cons m rest ih =>
    obtain ⟨key, node⟩ := m
    rw [declareTyped] at h
    rw [typeNode?, Fields.get?]
    split at h
    · cases h
    · rename_i hkey
      rw [if_neg hkey]
      exact ih h

namespace Cases

variable {registry : Registry} {onNode : String → Value → Declarations → Declarations → Prop}
  {onFields : String → Fields → Declarations → Declarations → Prop}

mutual
theorem node (c : Cases registry onNode onFields) : ∀ (node : Value) {path : String}
    {d d' : Declarations}, declareNode registry path node d = .ok d' → onNode path node d d'
  | .string name, path, d, d', h => by
    simp only [declareNode] at h
    split at h
    · rename_i t hresolve
      cases h
      exact c.named hresolve
    · cases h
  | .array [], path, d, d', h => by
    simp only [declareNode] at h
    cases h
    exact c.emptyArray
  | .array [element], path, d, d', h => by
    simp only [declareNode] at h
    exact c.array (c.node element h)
  | .array (_ :: _ :: _), path, d, d', h => by
    simp only [declareNode] at h
    cases h
  | .object members, path, d, d', h => by
    -- Taken here, where the fields are seen to be part of the object.
    have hfields : ∀ {d d'}, declareFields registry path members d = .ok d' →
        onFields path members d d' := fun h => c.fields members h
    simp only [declareNode] at h
    split at h
    · rename_i typed htyped
      cases typed with
      | error e => cases h
      | ok d₁ =>
        obtain ⟨t, ht, hnode⟩ := c.type members htyped
        simp only [bind, Except.bind] at h
        split at h
        · rename_i hany
          split at h
          · rename_i hobject
            exact c.typedFields ht hnode hany hobject (hfields h)
          · cases h
        · rename_i hany
          cases h
          exact c.typed ht hnode (by simpa using hany)
    · rename_i htyped
      have ht := typeNode?_of_declareTyped htyped
      split at h
      · rename_i hany
        exact c.object ht hany (hfields h)
      · rename_i hany
        cases h
        exact c.untyped ht (by simpa using hany)
  | .null, path, d, d', h => by simp only [declareNode] at h; cases h
  | .bool _, path, d, d', h => by simp only [declareNode] at h; cases h
  | .number _, path, d, d', h => by simp only [declareNode] at h; cases h
theorem type (c : Cases registry onNode onFields) : ∀ (members : List (String × Value))
    {path : String} {d d' : Declarations}, declareTyped registry path members d = some (.ok d') →
    ∃ t, typeNode? members = some t ∧ onNode path t d d'
  | [], path, d, d', h => by simp only [declareTyped] at h; cases h
  | (key, node) :: rest, path, d, d', h => by
    simp only [declareTyped] at h
    split at h
    · rename_i hkey
      exact ⟨node, if_pos hkey, c.node node (Option.some.inj h)⟩
    · rename_i hkey
      obtain ⟨t, ht, hnode⟩ := c.type rest h
      exact ⟨t, (if_neg hkey).trans ht, hnode⟩
theorem fields (c : Cases registry onNode onFields) : ∀ (members : List (String × Value))
    {base : String} {d d' : Declarations}, declareFields registry base members d = .ok d' →
    onFields base members d d'
  | [], base, d, d', h => by
    simp only [declareFields] at h
    cases h
    exact c.noFields
  | (key, node) :: rest, base, d, d', h => by
    simp only [declareFields] at h
    split at h
    · rename_i hoperator
      exact c.skipped hoperator (c.fields rest h)
    · rename_i hplain
      split at h
      · cases h
      · rename_i hname
        simp only [Bool.or_eq_true, not_or, List.contains_iff_mem, String.isEmpty_iff] at hname
        have hkey : IsFieldName key := ⟨by simpa using hplain, hname.1, hname.2⟩
        cases hnode : declareNode registry (join base key) node d with
        | error e => rw [hnode] at h; cases h
        | ok d₁ =>
          rw [hnode] at h
          exact c.field hkey (c.node node hnode) (c.fields rest h)
end

end Cases

section Induction

variable {registry : Registry} {Q : Declarations → Prop}

/-- What every insertion keeps is kept by all of them together. -/
theorem kept (step : Kept registry Q) :
    Cases registry (fun path _ d d' => DeclaredPath path → Q d → Q d')
      (fun base _ d d' => base = "" ∨ DeclaredPath base → Q d → Q d') where
  named hresolve hpath hd := step hpath (offered_resolve hresolve) hd
  emptyArray hpath hd := step hpath (offered_array registry) hd
  array h hpath hd := h hpath.item (step hpath (offered_array registry) hd)
  typed _ h _ hpath hd := h hpath hd
  typedFields _ h _ _ hfields hpath hd := hfields (.inr hpath) (h hpath hd)
  object _ _ h hpath hd := h (.inr hpath) (step hpath (offered_object registry) hd)
  untyped _ _ hpath hd := step hpath (offered_none registry) hd
  noFields _ hd := hd
  skipped _ h hbase hd := h hbase hd
  field hkey hnode h hbase hd := h hbase (hnode (DeclaredPath.join_field hbase hkey) hd)

/-- A property that holds of no declarations and is kept holds of all declarations in the end. -/
theorem declarations_induction (step : Kept registry Q) (hempty : Q Dictionary.empty)
    {options : CompileOptions} {definition : Value} {d : Declarations}
    (h : declarations registry options definition = .ok d) : Q d := by
  cases definition with
  | object fields =>
    simp only [declarations] at h
    cases hfields : declareFields registry "" fields Dictionary.empty with
    | error e => rw [hfields] at h; cases h
    | ok d₁ =>
      rw [hfields] at h
      have hd₁ : Q d₁ := (kept step).fields fields hfields (.inl rfl) hempty
      simp only [bind, Except.bind] at h
      split at h
      · cases h
        refine step (.top ⟨by decide, by decide, by decide⟩) ?_ hd₁
        intro t ht
        cases ht
        exact .inl rfl
      · cases h
        exact hd₁
  | _ => simp only [declarations] at h; cases h

end Induction

theorem paths_of_compile {registry : Registry} {options : CompileOptions} {definition : Value}
    {index : Index} (h : compile registry options definition = .ok index) :
    declarations registry options definition = .ok index.paths := by
  unfold compile at h
  cases hd : declarations registry options definition with
  | error e => rw [hd] at h; cases h
  | ok d =>
    rw [hd] at h
    simp only [bind, Except.bind, Index.build] at h
    split at h
    · cases h
    · cases h
      rfl

/-- The paths of a compiled index are made of field names and wildcards, and its types are
offered. -/
theorem declared_of_compile {registry : Registry} {options : CompileOptions} {definition : Value}
    {index : Index} (h : compile registry options definition = .ok index) {path : String}
    {declared : Option DeclaredType} (hget : index.get? path = some declared) :
    DeclaredPath path ∧ Offered registry declared := by
  have hkept : Kept registry fun d => ∀ path declared, d.get? path = some declared →
      DeclaredPath path ∧ Offered registry declared := by
    intro d at_ new hpath hoffered ih path declared hfound
    rw [Dictionary.get?_insert] at hfound
    split at hfound
    · rename_i heq
      subst heq
      obtain rfl := Option.some.inj hfound
      exact ⟨hpath, hoffered⟩
    · exact ih path declared hfound
  have hall := declarations_induction hkept (by intro path declared hnone; cases hnone)
    (paths_of_compile h)
  exact hall path declared hget

/-- The root has no entry of its own. -/
theorem lookup_empty_of_compile {registry : Registry} {options : CompileOptions}
    {definition : Value} {index : Index} (h : compile registry options definition = .ok index) :
    index.lookup "" = .undeclared := by
  unfold Index.lookup
  cases hget : index.get? "" with
  | none => rfl
  | some declared => exact absurd rfl (declared_of_compile h hget).1.ne_empty

/-- Built-in rules in the registry are built-in rules in the index. -/
theorem hasBuiltinRules_of_compile {registry : Registry} {options : CompileOptions}
    {definition : Value} {index : Index} (hr : registry.HasBuiltinRules)
    (h : compile registry options definition = .ok index) : index.HasBuiltinRules := by
  intro key t hl
  unfold Index.lookup at hl
  split at hl
  all_goals try cases hl
  rename_i hget
  rcases (declared_of_compile h hget).2 t rfl with rfl | ⟨name, hname⟩
  · exact .objectId
  · exact hr hname

end Definition

end TypedDocs
