import TypedDocs.Proofs.Document.Walk
import TypedDocs.Proofs.Json.Depth
import TypedDocs.Proofs.Schema.LevelsLeft

/-!
# The call depth of a document walk

The walk is written here with its promotions where they are made: a value becomes the only item of
an array and is visited again, no smaller than before, one array level down. Only a bounded number
of calls may be nested, and a walk that would nest more of them has no result. The depth of the
value and the array levels that are left bound the calls that a walk nests, and what promotion adds
to the depth of the value.
-/

namespace TypedDocs

namespace Walker

variable {w : Walker} {p : FieldPath} {v : Value}

/-- Visits the parts of a container in order, each with its index, until the walk ends. -/
def each {α : Type} (w : Walker) (visit : Nat → α → Option (Walked α)) :
    Nat → List α → Option (Walked (List α))
  | _, [] => some (.clean [])
  | i, x :: xs =>
    (visit i x).bind fun head =>
      if w.stops head.failures then some ⟨head.value :: xs, head.failures⟩
      else (each w visit (i + 1) xs).map fun tail =>
        ⟨head.value :: tail.value, head.failures ++ tail.failures⟩

/-- What is done with the value at a location that the index knows in a certain way. -/
def dispatch (w : Walker) (object array : FieldPath → Value → Option (Walked Value))
    (known : Lookup) (p : FieldPath) (v : Value) : Option (Walked Value) :=
  match known with
  | .undeclared | .untyped => some (.clean v)
  | .array => array p v
  | .object => if v.isNull then some (.clean v) else object p v
  | .scalar t => some (w.leaf t p v)

mutual
/-- Casts a value as an object at a location. -/
def objectWithin (w : Walker) : Nat → FieldPath → Value → Option (Walked Value)
  | 0, _, _ => none
  | n + 1, p, .object fs =>
    (w.each (fun _ field => (w.fieldWithin n (p.child (.key field.1)) field.2).map
      (Walked.map (Prod.mk field.1))) 0 (w.index.prune p.schema fs)).map (Walked.map .object)
  | _ + 1, p, v => some (.failed p (.ofShape v objectName) v)
/-- Casts the value at a location. -/
def fieldWithin (w : Walker) : Nat → FieldPath → Value → Option (Walked Value)
  | 0, _, _ => none
  | n + 1, p, v => w.dispatch (w.objectWithin n) (w.arrayWithin n) (w.index.lookup p.schema) p v
/-- Casts the value at an array location. One that is not an array is made the only item of one. -/
def arrayWithin (w : Walker) : Nat → FieldPath → Value → Option (Walked Value)
  | 0, _, _ => none
  | n + 1, p, v =>
    let itemType := w.index.lookup p.element.schema
    if !itemType.isTyped || v.isNull then some (.clean v)
    else (w.each (fun i => w.dispatch (w.objectWithin n) (w.arrayWithin n) itemType
      (p.child (.index i))) 0 v.promoted).map (Walked.map .array)
end

theorem each_items {visit : Nat → Value → Option (Walked Value)} {xs : List Value}
    (h : ∀ x ∈ xs, ∀ i, visit i x = some (w.field (p.child (.index i)) x)) (i : Nat) :
    w.each visit i xs = some (w.items p i xs) := by
  induction xs generalizing i with
  | nil => rfl
  | cons x xs ih =>
    rw [each, h x List.mem_cons_self i, ih fun y hy => h y (List.mem_cons_of_mem _ hy)]
    cases hstops : w.stops (w.field (p.child (.index i)) x).failures with
    | true => simp [items_cons_stopped hstops, hstops]
    | false => simp [items_cons hstops, hstops]

/-- The fields that are not kept are left out before the others are visited. -/
theorem each_fields {visit : String × Value → Option (Walked (String × Value))} {fs : Fields}
    (h : ∀ field ∈ fs, visit field =
      some ((w.field (p.child (.key field.1)) field.2).map (Prod.mk field.1))) (i : Nat) :
    w.each (fun _ => visit) i (w.index.prune p.schema fs) = some (w.fields p fs) := by
  induction fs generalizing i with
  | nil => rfl
  | cons first fs ih =>
    obtain ⟨key, x⟩ := first
    have hrest := ih fun field hfield => h field (List.mem_cons_of_mem _ hfield)
    cases hkeep : w.index.keepsField p.schema key x with
    | false =>
      rw [Index.prune_cons_dropped hkeep, hrest, fields_cons_dropped hkeep]
    | true =>
      rw [Index.prune_cons_kept hkeep, each, h _ List.mem_cons_self, hrest]
      cases hstops : w.stops (w.field (p.child (.key key)) x).failures with
      | true => simp [fields_cons_stopped hkeep hstops, hstops]
      | false => simp [fields_cons hkeep hstops, hstops]

theorem field_of_null (hnull : v.isNull = true) : w.field p v = .clean v := by
  obtain rfl := Value.eq_null hnull
  rfl

theorem items_singleton {i : Nat} {x : Value} :
    w.items p i [x] = (w.field (p.child (.index i)) x).map fun y => [y] := by
  cases hstops : w.stops (w.field (p.child (.index i)) x).failures with
  | true =>
    rw [items_cons_stopped hstops]
    rfl
  | false =>
    have hnil : w.items p (i + 1) [] = .clean [] := rfl
    rw [items_cons hstops, hnil, Walked.clean, List.append_nil]
    rfl

/-- Where items are asked for, they are those of the value as an array. -/
theorem field_eq_items (hd : w.index.demand p = .items) (hnull : v.isNull = false) :
    w.field p v = (w.items p 0 v.promoted).map .array := by
  cases v with
  | null => cases hnull
  | array xs => exact field_items hd
  | _ =>
    rw [field_promoted hd hnull rfl, Value.promoted, items_singleton]
    · rfl
    · exact fun _ h => nomatch h

/-- So many nested calls are enough to cast any value at any location, if its depth and the array
levels that are left do not ask for more. -/
structure EnoughCalls (w : Walker) (n : Nat) : Prop where
  object : ∀ p v, 2 * v.depth + w.index.levelsLeft p.schema + 1 ≤ n →
    w.objectWithin n p v = some (w.object p v)
  field : ∀ p v, 2 * v.depth + w.index.levelsLeft p.schema + 2 ≤ n →
    w.fieldWithin n p v = some (w.field p v)
  array : ∀ p v, w.index.lookup p.schema = .array →
    2 * v.depth + w.index.levelsLeft p.schema + 1 ≤ n →
    w.arrayWithin n p v = some (w.field p v)

variable {n : Nat}

theorem EnoughCalls.object_succ (h : w.EnoughCalls n)
    (hn : 2 * v.depth + w.index.levelsLeft p.schema + 1 ≤ n + 1) :
    w.objectWithin (n + 1) p v = some (w.object p v) := by
  cases v with
  | object fs =>
    have hfields : ∀ field ∈ fs, (w.fieldWithin n (p.child (.key field.1)) field.2).map
        (Walked.map (Prod.mk field.1)) =
          some ((w.field (p.child (.key field.1)) field.2).map (Prod.mk field.1)) := by
      intro field hfield
      have hdepth := Value.depth_le_membersDepth hfield
      have hlevels : w.index.levelsLeft (p.child (.key field.1)).schema ≤
          w.index.levelsLeft p.schema := Index.levelsLeft_join_le ..
      rw [Value.depth_object] at hn
      rw [h.field _ _ (by omega)]
      rfl
    rw [objectWithin, each_fields hfields]
    rfl
  | _ => rfl

/-- No call is nested where the value is told apart by what the index knows of it. -/
theorem EnoughCalls.dispatch (h : w.EnoughCalls n)
    (hn : 2 * v.depth + w.index.levelsLeft p.schema + 1 ≤ n) :
    w.dispatch (w.objectWithin n) (w.arrayWithin n) (w.index.lookup p.schema) p v =
      some (w.field p v) := by
  cases hl : w.index.lookup p.schema with
  | undeclared =>
    rw [field_nothing (by simp [Index.demand, hl])]
    rfl
  | untyped =>
    rw [field_nothing (by simp [Index.demand, hl])]
    rfl
  | array => exact h.array p v hl hn
  | object =>
    cases hnull : v.isNull with
    | true => simp [Walker.dispatch, hnull, field_of_null hnull]
    | false =>
      rw [field_object (Index.demand_eq_object_iff.2 hl) hnull, ← h.object p v hn]
      exact if_neg (by simp [hnull])
  | scalar t =>
    rw [field_scalar (Index.demand_eq_scalar_iff.2 hl)]
    rfl

theorem EnoughCalls.array_succ (h : w.EnoughCalls n) (hl : w.index.lookup p.schema = .array)
    (hn : 2 * v.depth + w.index.levelsLeft p.schema + 1 ≤ n + 1) :
    w.arrayWithin (n + 1) p v = some (w.field p v) := by
  have helement : p.element.schema = join p.schema wildcard := rfl
  rw [arrayWithin, helement]
  cases htyped : (w.index.lookup (join p.schema wildcard)).isTyped with
  | false =>
    have hd : w.index.demand p = .nothing := by
      rw [Index.demand, hl]
      exact if_neg (by simp [htyped])
    rw [field_nothing hd]
    rfl
  | true =>
    cases hnull : v.isNull with
    | true => simp [field_of_null hnull]
    | false =>
      have hd : w.index.demand p = .items := by
        rw [Index.demand, hl]
        exact if_pos htyped
      have hlevels := Index.levelsLeft_item w.index p.schema
      have hleft : 0 < w.index.levelsLeft (join p.schema wildcard) :=
        Index.levelsLeft_pos (Index.contains_of_isTyped htyped)
      -- Each item is visited one level down; one that was promoted is as deep as it was.
      have hitem : ∀ x ∈ v.promoted, ∀ i, w.dispatch (w.objectWithin n) (w.arrayWithin n)
          (w.index.lookup (join p.schema wildcard)) (p.child (.index i)) x =
            some (w.field (p.child (.index i)) x) := by
        intro x hx i
        have hdepth := Value.depth_le_of_promoted hx
        have hdown : 2 * x.depth + w.index.levelsLeft (join p.schema wildcard) + 1 ≤ n := by omega
        exact h.dispatch (p := p.child (.index i)) hdown
      rw [field_eq_items hd hnull, if_neg (by simp), each_items hitem]
      rfl

theorem enoughCalls (w : Walker) (n : Nat) : w.EnoughCalls n := by
  induction n with
  | zero =>
    exact ⟨fun _ _ hn => by omega, fun _ _ hn => by omega, fun _ _ _ hn => by omega⟩
  | succ n ih =>
    exact ⟨fun _ _ => ih.object_succ, fun _ _ hn => ih.dispatch (by omega),
      fun _ _ => ih.array_succ⟩

section Nesting

theorem value_atom (hcoerce : w.coerce = false) : (w.atom p v).value = v := by
  unfold atom
  split
  · rfl
  · simp [leaf, hcoerce, Walked.clean]
  · rfl

/-- The fields that are kept are no deeper than all fields. -/
theorem membersDepth_prune_le (index : Index) (base : String) (fs : Fields) :
    Value.membersDepth (index.prune base fs) ≤ Value.membersDepth fs := by
  induction fs with
  | nil => exact Nat.le_refl _
  | cons first fs ih =>
    obtain ⟨key, x⟩ := first
    cases hkeep : index.keepsField base key x with
    | true =>
      rw [Index.prune_cons_kept hkeep]
      exact max_le_max_left x.depth ih
    | false =>
      rw [Index.prune_cons_dropped hkeep]
      exact Nat.le_trans ih (Nat.le_max_right _ _)

/-- Each array that is put around a value uses up one array level, and nothing else makes a value
deeper. -/
theorem depth_cases (hcoerce : w.coerce = false) : Cases w.index
    (fun v p => (w.field p v).value.depth ≤ v.depth + (w.index.levelsLeft p.schema - 1))
    (fun xs p i => Value.itemsDepth (w.items p i xs).value ≤
      Value.itemsDepth xs + (w.index.levelsLeft (join p.schema wildcard) - 1))
    (fun fs p => Value.membersDepth (w.fields p fs).value ≤
      Value.membersDepth fs + (w.index.levelsLeft p.schema - 1)) where
  null p := Nat.zero_le _
  array {xs p} hd h := by
    have hlevels := Index.levelsLeft_item w.index p.schema
    rw [field_items hd, Walked.map_value, Value.depth_array, Value.depth_array]
    omega
  promoted {v p} hd hnull harray h := by
    have hlevels := Index.levelsLeft_item w.index p.schema
    have hleft : 0 < w.index.levelsLeft (join p.schema wildcard) :=
      Index.levelsLeft_pos (Index.contains_of_isTyped (Index.isTyped_of_demand_items hd))
    have hschema : (p.child (.index 0)).schema = join p.schema wildcard := rfl
    rw [hschema] at h
    rw [field_promoted hd hnull harray, Walked.map_value, Value.depth_array, Value.itemsDepth,
      Value.itemsDepth]
    omega
  object {fs p} hd h := by
    rw [field_object hd rfl, object, Walked.map_value, Value.depth_object, Value.depth_object]
    omega
  misshapen hd hnull hobject := by
    rw [field_misshapen hd hnull hobject]
    exact Nat.le_add_right _ _
  atom hi ho _ := by
    rw [field_eq_atom hi ho, value_atom hcoerce]
    exact Nat.le_add_right _ _
  noItems p i := Nat.zero_le _
  item {x xs p i} hx hxs := by
    have hschema : (p.child (.index i)).schema = join p.schema wildcard := rfl
    rw [hschema] at hx
    cases hstops : w.stops (w.field (p.child (.index i)) x).failures with
    | true =>
      rw [items_cons_stopped hstops, Value.itemsDepth, Value.itemsDepth]
      omega
    | false =>
      rw [items_cons hstops, Value.itemsDepth, Value.itemsDepth]
      omega
  noFields p := Nat.zero_le _
  kept {key x fs p} hkeep hx hfs := by
    have hlevels : w.index.levelsLeft (p.child (.key key)).schema ≤
        w.index.levelsLeft p.schema := Index.levelsLeft_join_le ..
    cases hstops : w.stops (w.field (p.child (.key key)) x).failures with
    | true =>
      have hprune := membersDepth_prune_le w.index p.schema fs
      rw [fields_cons_stopped hkeep hstops, Value.membersDepth, Value.membersDepth]
      omega
    | false =>
      rw [fields_cons hkeep hstops, Value.membersDepth, Value.membersDepth]
      omega
  dropped {key x fs p} hkeep h := by
    rw [fields_cons_dropped hkeep, Value.membersDepth]
    omega

end Nesting

end Walker

namespace Document

def walkWithin (n : Nat) (index : Index) (options : DocumentOptions) (v : Value) :
    Option (Walked Value) :=
  Walker.objectWithin ⟨index, options.coerce, options.policy⟩ n (FieldPath.parse options.location) v

/-- The walk of a document comes to its end, if the depth of the document and the array levels of
the index can be nested. -/
theorem walkWithin_eq {n : Nat} {index : Index} {options : DocumentOptions} {v : Value}
    (hn : 2 * v.depth + index.arrayLevels + 2 ≤ n) :
    walkWithin n index options v = some (walk index options v) := by
  let w : Walker := ⟨index, options.coerce, options.policy⟩
  have hleft : w.index.levelsLeft (FieldPath.parse options.location).schema ≤
      index.arrayLevels + 1 := Index.levelsLeft_le _ _
  exact (w.enoughCalls n).object _ v (by omega)

/-- Without conversion a document becomes deeper by at most the array levels of the index. -/
theorem depth_cast_le {index : Index} {options : DocumentOptions} {v : Value}
    (hcoerce : options.coerce = false) :
    (cast index options v).value.depth ≤ v.depth + index.arrayLevels := by
  let w : Walker := ⟨index, options.coerce, options.policy⟩
  have hleft : w.index.levelsLeft (FieldPath.parse options.location).schema ≤
      index.arrayLevels + 1 := Index.levelsLeft_le _ _
  have hvalue : (cast index options v).value =
      (w.object (FieldPath.parse options.location) v).value := rfl
  cases v with
  | object fs =>
    have hfields :=
      (Walker.depth_cases (w := w) hcoerce).fields fs (FieldPath.parse options.location)
    rw [hvalue, Walker.object, Walked.map_value, Value.depth_object, Value.depth_object]
    omega
  | _ => exact Nat.le_add_right _ _

end Document

end TypedDocs
