import TypedDocs.Catalog.Bundle
import TypedDocs.Proofs.Dictionary
import TypedDocs.Proofs.Json.ReadBack

/-!
# Bundles as they are saved

A bundle that is written is read back as itself, if its definitions leave room for the two
containers around them: the object of the bundle, and that of its collections. A definition
read from a file of its own need not. The hash goes with the content, so a sealed bundle is
still sealed.
-/

namespace TypedDocs

namespace Record

variable {α β : Type} {members : List (String × α)} {name : String} {absent : Option β}
  {f : α → Option β}

theorem named_of_not_mem (h : name ∉ members.map Prod.fst) : named members name = [] := by
  rw [named, List.map_eq_nil_iff, List.filter_eq_nil_iff]
  intro m hm hname
  exact h (List.mem_map.2 ⟨m, hm, by simpa using hname⟩)

theorem field?_of_not_mem (h : name ∉ members.map Prod.fst) :
    field? members name absent f = absent := by
  rw [field?, named_of_not_mem h]

/-- A member whose name occurs once is the one that is read. -/
theorem field?_of_mem (hnodup : (members.map Prod.fst).Nodup) {x : α} (h : (name, x) ∈ members) :
    field? members name absent f = f x := by
  have hnamed : named members name = [x] := by
    induction members with
    | nil => cases h
    | cons m rest ih =>
      obtain ⟨hfirst, hrest⟩ := List.nodup_cons.1 (List.map_cons ▸ hnodup)
      rcases List.mem_cons.1 h with rfl | h
      · have hothers := named_of_not_mem hfirst
        rw [named] at hothers ⊢
        rw [List.filter_cons_of_pos (by simp), List.map_cons, hothers]
      · have hne : m.1 ≠ name := by
          rintro rfl
          exact hfirst (List.mem_map.2 ⟨_, h, rfl⟩)
        rw [named, List.filter_cons_of_neg (by simpa using hne)]
        exact ih hrest h
  rw [field?, hnamed]

end Record

namespace Bundle

/-- How many containers a definition may nest in a bundle. -/
def definitionRoom : Nat := maxNesting - 2

/-- All definitions can be read from the text they are written as. -/
def Readable (b : Bundle) : Prop :=
  ∀ d ∈ b.collections.bindings, d.2.doublesReadBack = true ∧ d.2.hasDistinctNames = true

variable {b : Bundle}

theorem membersReadBack_iff {fs : Fields} :
    Value.membersReadBack fs = true ↔ ∀ f ∈ fs, f.2.doublesReadBack = true := by
  induction fs with
  | nil => simp [Value.membersReadBack]
  | cons f fs ih => simp [Value.membersReadBack, ih]

theorem membersDepth_le_iff {fs : Fields} {room : Nat} :
    Value.membersDepth fs ≤ room ↔ ∀ f ∈ fs, f.2.depth ≤ room := by
  induction fs with
  | nil => simp [Value.membersDepth]
  | cons f fs ih =>
    rw [Value.membersDepth, Nat.max_le, ih, List.forall_mem_cons]

theorem collections?_toNode (h : b.Readable) :
    collections? (Value.object b.collections.bindings).toNode =
      if Value.membersDepth b.collections.bindings ≤ definitionRoom then some b.collections
      else none := by
  have hdoubles := membersReadBack_iff.2 fun d hd => (h d hd).1
  have hdistinct := Value.everyObjectOfFields_iff.2 fun d hd => (h d hd).2
  rw [Value.toNode, collections?, Node.memberValues?_memberNodes _ _ hdoubles hdistinct]
  unfold definitionRoom
  split
  · rw [Option.map_some, Dictionary.ofList_bindings]
  · rfl

theorem doublesReadBack_toValue (h : b.Readable) : b.toValue.doublesReadBack = true := by
  have hdoubles := membersReadBack_iff.2 fun d hd => (h d hd).1
  rw [toValue, Value.doublesReadBack, membersReadBack_iff]
  simp only [List.forall_mem_append, List.forall_mem_singleton]
  have hoptional : ∀ (key : String) (s : Option String), ∀ f ∈ optionalField key s,
      f.2.doublesReadBack = true := by
    intro key s f hf
    cases s with
    | none => cases hf
    | some s => rw [List.mem_singleton.1 hf]; rfl
  refine ⟨⟨⟨⟨rfl, hoptional _ _⟩, rfl⟩, hoptional _ _⟩, ?_⟩
  rw [Value.doublesReadBack]
  exact hdoubles

theorem members?_memberNodes (fs : Fields) :
    members? (.object (Value.memberNodes fs)) = some (fs.map fun f => (f.1, f.2.toNode)) := by
  rw [members?]
  induction fs with
  | nil => rw [Value.memberNodes]; rfl
  | cons f fs ih =>
    rw [Value.memberNodes, List.mapM_cons, ih]
    rfl

/-- A member that need not be written is read as it was, written or not. -/
theorem field?_optionalText {members : List (String × Node)} {key : String} {s : Option String}
    (hnames : (members.map Prod.fst).Nodup)
    (habsent : s = none → key ∉ members.map Prod.fst)
    (hpresent : ∀ t, s = some t → (key, (Value.string t).toNode) ∈ members) :
    Record.field? members key (some none) optionalText? = some s := by
  cases s with
  | none => exact Record.field?_of_not_mem (habsent rfl)
  | some t =>
    rw [Record.field?_of_mem hnames (hpresent t rfl), Value.toNode]
    rfl

/-- A saved bundle is read as it was saved, if there is room for its definitions. -/
theorem ofNode?_toNode (h : b.Readable) :
    ofNode? b.toValue.toNode =
      if Value.membersDepth b.collections.bindings ≤ definitionRoom then some b else none := by
  have hcollections := collections?_toNode h
  obtain ⟨version, generatedAt, name, hash, collections⟩ := b
  rw [toValue, Value.toNode, ofNode?, members?_memberNodes]
  generalize hfields : List.map _ _ = members
  have hnames : (members.map Prod.fst).Nodup := by
    subst hfields
    cases name <;> cases hash <;> simp [optionalField]
  have htext : ∀ key t, (key, (Value.string t).toNode) ∈ members →
      Record.field? members key none text? = some t := by
    intro key t hmem
    rw [Record.field?_of_mem hnames hmem, Value.toNode]
    rfl
  have hversion := htext "version" version (by subst hfields; simp)
  have hgenerated := htext "generated_at" generatedAt (by subst hfields; simp)
  have hname : Record.field? members "name" (some none) optionalText? = some name := by
    refine field?_optionalText hnames (fun hnone => ?_) (fun t hsome => ?_)
    · subst hfields hnone
      cases hash <;> simp [optionalField]
    · subst hfields hsome
      simp [optionalField]
  have hhash : Record.field? members "bundle_hash" (some none) optionalText? = some hash := by
    refine field?_optionalText hnames (fun hnone => ?_) (fun t hsome => ?_)
    · subst hfields hnone
      cases name <;> simp [optionalField]
    · subst hfields hsome
      simp [optionalField]
  have hrest : Record.field? members "collections" (some Dictionary.empty) collections? =
      collections? (Value.object collections.bindings).toNode :=
    Record.field?_of_mem hnames (by subst hfields; simp)
  simp only [Option.bind_eq_bind, Option.bind_some, hversion, hname, hgenerated, hhash, hrest,
    hcollections]
  split <;> rfl

/-- The text of a bundle is read as the bundle, if there is room for its definitions. -/
theorem parse?_pretty (h : b.Readable) :
    parse? b.toValue.pretty =
      if Value.membersDepth b.collections.bindings ≤ definitionRoom then some b else none := by
  rw [parse?, Node.parse?_pretty (doublesReadBack_toValue h)]
  exact ofNode?_toNode h

theorem verify_sealed (b : Bundle) : b.sealed.verify = .ok () := by
  have hhash : b.sealed.hash = some b.sealed.contentHash := rfl
  rw [verify, hhash]
  exact if_pos rfl

end Bundle

end TypedDocs
