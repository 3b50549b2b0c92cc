import TypedDocs.Proofs.Json.Names
import TypedDocs.Proofs.Schema.Compiled

/-!
# The nodes of a definition

The segments of a path lead through the nodes of a definition: a name to the field of that
name, the wildcard to the element of an array. What a node does not have itself is looked for
in the value of its type key, and in the type key of that one. The last of these nodes says
of what kind the first one is.
-/

namespace TypedDocs

/-- What is said of a declared path. -/
def Lookup.ofDeclared : Option DeclaredType → Lookup
  | none => .untyped
  | some .array => .array
  | some .object => .object
  | some (.scalar t) => .scalar t

namespace Definition

/-- The node of a field among the members of an object; keys for other things are none. -/
def memberNode? (name : String) (members : Fields) : Option Value :=
  if isOperator name then none else Fields.get? members name

mutual
/-- A node and the nodes that its type is taken from: each is the value of the type key of the one
before. -/
def typeChain : Value → List Value
  | .object members => .object members :: typeChainOf members
  | node => [node]
/-- The nodes that a type is taken from, beginning with the value of the type key. -/
def typeChainOf : List (String × Value) → List Value
  | [] => []
  | (key, node) :: rest => if key = typeKey then typeChain node else typeChainOf rest
end

/-- The node that a segment leads to from a node itself. -/
def stepOf? (s : String) : Value → Option Value
  | .array [element] => if s = wildcard then some element else none
  | .object members => memberNode? s members
  | _ => none

/-- The node that a segment leads to from a node or from one that its type is taken from. -/
def step? (s : String) (node : Value) : Option Value := (typeChain node).findSome? (stepOf? s)

/-- The node that some segments lead to. -/
def nodeBelow? (node : Value) (segments : List String) : Option Value :=
  segments.foldlM (fun node s => step? s node) node

/-- The node that some segments lead to below the members of an object. -/
def memberBelow? (members : Fields) : List String → Option Value
  | [] => none
  | s :: rest => (memberNode? s members).bind (nodeBelow? · rest)

/-- The node that some segments lead to from the root, where there is no type key. -/
def nodeAt? (definition : Value) (segments : List String) : Option Value :=
  match definition with
  | .object members => memberBelow? members segments
  | _ => none

/-- The kind of a node that has no type key. -/
def ownKind (registry : Registry) : Value → Lookup
  | .string name => ((registry.resolve name).map fun t => .ofDeclared (some t)).getD .undeclared
  | .array _ => .array
  | .object members => if hasFields members then .object else .untyped
  | _ => .undeclared

/-- The kind of a node, which is that of the last node its type is taken from. -/
def kind (registry : Registry) (node : Value) : Lookup :=
  ownKind registry ((typeChain node).getLastD node)

mutual
/-- No node has a field of one name beside its type key and also inside the type. -/
def namesApart : Value → Bool
  | .array xs => namesApartInItems xs
  | .object members =>
    (members.all fun m => isOperator m.1 || (typeNode? members).all fun t => (step? m.1 t).isNone)
      && namesApartInType members && namesApartInFields members
  | _ => true
def namesApartInItems : List Value → Bool
  | [] => true
  | x :: xs => namesApart x && namesApartInItems xs
def namesApartInType : List (String × Value) → Bool
  | [] => true
  | (key, node) :: rest => if key = typeKey then namesApart node else namesApartInType rest
def namesApartInFields : List (String × Value) → Bool
  | [] => true
  | (key, node) :: rest => (isOperator key || namesApart node) && namesApartInFields rest
end

/-- In no node of a definition are there two fields of one name. The root itself has no type. -/
def hasNamesApart : Value → Bool
  | .object members => namesApartInFields members
  | _ => true

section Nodes

variable {registry : Registry} {node t : Value} {members : Fields} {s key : String}

theorem typeChain_cons (node : Value) : ∃ rest, typeChain node = node :: rest := by
  cases node with
  | object members => exact ⟨typeChainOf members, by rw [typeChain]⟩
  | _ => exact ⟨[], by rw [typeChain]; simp⟩

theorem typeChainOf_eq : typeChainOf members = (typeNode? members).elim [] typeChain := by
  induction members with
  | nil => rw [typeChainOf]; rfl
  | cons m rest ih =>
    obtain ⟨key, node⟩ := m
    rw [typeChainOf, typeNode?, Fields.get?]
    split
    · rfl
    · exact ih

theorem step?_object :
    step? s (.object members) =
      (memberNode? s members).or ((typeNode? members).bind (step? s)) := by
  rw [step?, typeChain, List.findSome?_cons, typeChainOf_eq]
  have hown : stepOf? s (.object members) = memberNode? s members := rfl
  rw [hown]
  cases memberNode? s members with
  | some n => rfl
  | none => cases typeNode? members <;> rfl

theorem kind_object_of_type (h : typeNode? members = some t) :
    kind registry (.object members) = kind registry t := by
  obtain ⟨rest, hrest⟩ := typeChain_cons t
  have hchain : typeChain (.object members) = .object members :: t :: rest := by
    rw [typeChain, typeChainOf_eq, h, ← hrest]
    rfl
  rw [kind, kind, hchain, hrest]
  rfl

theorem kind_object (h : typeNode? members = none) :
    kind registry (.object members) = if hasFields members then .object else .untyped := by
  have hchain : typeChain (.object members) = [.object members] := by
    rw [typeChain, typeChainOf_eq, h]
    rfl
  rw [kind, hchain]
  rfl

theorem nodeBelow?_cons {rest : List String} :
    nodeBelow? node (s :: rest) = (step? s node).bind (nodeBelow? · rest) := rfl

theorem memberNode?_of_no_fields (h : hasFields members = false) :
    memberNode? s members = none := by
  unfold memberNode?
  split
  · rfl
  · rename_i hs
    rw [← Option.not_isSome_iff_eq_none, Fields.isSome_get?_iff]
    intro hmem
    obtain ⟨m, hm, rfl⟩ := List.mem_map.1 hmem
    have hoperator := List.any_eq_false.1 h m hm
    simp only [Bool.not_eq_true] at hs
    simp [hs] at hoperator

end Nodes

end Definition

end TypedDocs
