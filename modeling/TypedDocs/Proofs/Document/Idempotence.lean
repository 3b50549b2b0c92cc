import TypedDocs.Proofs.Document.Walk
import TypedDocs.Proofs.Schema.Bands

/-!
# A second document cast repeats the first

Casting the value that a cast returned gives that value and those errors again. This
also holds where the cast failed: what it left half done, a second cast under the same
options leaves half done in the same way. Of the scalar rules it is only assumed that
what they convert a value to is of their own type.
-/

namespace TypedDocs

/-- What the rule converts a value to is of its type, as `null` is of every type. -/
def ScalarType.EndsInType (t : ScalarType) : Prop :=
  ∀ ⦃v w : Value⦄, t.convert v = .ok w → t.accepts w = true

/-- The scalar rules of the index end in their types. -/
def Index.EndsInTypes (index : Index) : Prop :=
  ∀ ⦃key : String⦄ ⦃t : ScalarType⦄, index.lookup key = .scalar t → t.EndsInType

theorem ScalarType.Lawful.endsInType {t : ScalarType} (ht : t.Lawful) : t.EndsInType :=
  fun _ _ h => ht.accepts_of_convert h

theorem ScalarType.EndsInType.coerce_coerce {t : ScalarType} (ht : t.EndsInType) {v w : Value}
    (h : t.coerce v = .ok w) : t.coerce w = .ok w := by
  apply coerce_of_accepts
  unfold coerce at h
  split at h
  · rename_i haccepts
    cases h
    exact haccepts
  · exact ht h

theorem Index.HasBuiltinRules.endsInTypes {index : Index} (h : index.HasBuiltinRules) :
    index.EndsInTypes :=
  fun _ _ hl => (h.lawful hl).endsInType

/-- Walking the value that a walk left does what the walk did. -/
def Repeats {α : Type} (walk : α → Walked α) (v : α) : Prop := walk (walk v).value = walk v

namespace Repeats

variable {α β : Type} {walk : α → Walked α} {walk' : β → Walked β} {v : α}

theorem of_kept (h : (walk v).value = v) : Repeats walk v := by
  rw [Repeats, h]

/-- A walk of something built around a part repeats as the walk of the part does. -/
theorem map (h : Repeats walk v) {f : α → β} {v' : β} (hv : walk' v' = (walk v).map f)
    (hu : ∀ u, walk' (f u) = (walk u).map f) : Repeats walk' v' := by
  have hagain : walk (walk v).value = walk v := h
  calc walk' (walk' v').value
      _ = walk' (f (walk v).value) := by rw [hv, Walked.map_value]
      _ = (walk (walk v).value).map f := hu _
      _ = (walk v).map f := by rw [hagain]
      _ = walk' v' := hv.symm

end Repeats

namespace Walker

variable {w : Walker} {p : FieldPath} {v : Value}

theorem leaf_repeats {t : ScalarType} (ht : t.EndsInType) : Repeats (w.leaf t p) v := by
  unfold Repeats leaf
  by_cases hcoerce : w.coerce = true
  · rw [if_pos hcoerce]
    cases h : t.coerce v with
    | ok u => simp [Walked.clean, hcoerce, ht.coerce_coerce h]
    | error e => simp [Walked.failed, hcoerce, h]
  · rw [if_neg hcoerce]
    simp [Walked.clean, hcoerce]

theorem atom_repeats (hends : w.index.EndsInTypes) : Repeats (w.atom p) v := by
  cases hl : w.index.lookup p.schema with
  | scalar t =>
    have hatom : w.atom p = w.leaf t p := by
      funext u
      rw [atom, hl]
    rw [hatom]
    exact leaf_repeats (hends hl)
  | _ => exact .of_kept (by rw [atom, hl]; rfl)

section Lists

variable {i : Nat} {x : Value} {xs : List Value} {key : String} {fs : Fields}

theorem items_cons_repeats (hx : Repeats (w.field (p.child (.index i))) x)
    (hxs : Repeats (w.items p (i + 1)) xs) : Repeats (w.items p i) (x :: xs) := by
  have hhead : w.field (p.child (.index i)) (w.field (p.child (.index i)) x).value =
      w.field (p.child (.index i)) x := hx
  have htail : w.items p (i + 1) (w.items p (i + 1) xs).value = w.items p (i + 1) xs := hxs
  unfold Repeats
  cases hstops : w.stops (w.field (p.child (.index i)) x).failures with
  | true =>
    have hagain := hstops
    rw [← hhead] at hagain
    rw [items_cons_stopped hstops, items_cons_stopped hagain, hhead]
  | false =>
    have hagain := hstops
    rw [← hhead] at hagain
    rw [items_cons hstops, items_cons hagain, hhead, htail]

/-- A field that is kept is kept again after it has been cast. -/
theorem keepsField_field (h : w.index.keepsField p.schema key x = true) :
    w.index.keepsField p.schema key (w.field (p.child (.key key)) x).value = true := by
  unfold Index.keepsField at h ⊢
  cases hl : w.index.lookup (join p.schema key) with
  | undeclared => simp [hl] at h
  | object =>
    simp only [hl, Bool.not_eq_true'] at h ⊢
    have hd : w.index.demand (p.child (.key key)) = .object := Index.demand_eq_object_iff.2 hl
    exact isNull_field_of_object hd h
  | _ => rfl

theorem prune_prune (index : Index) (base : String) (fs : Fields) :
    index.prune base (index.prune base fs) = index.prune base fs := by
  simp only [Index.prune, List.filter_filter, Bool.and_self]

theorem fields_cons_repeats (hkeep : w.index.keepsField p.schema key x = true)
    (hx : Repeats (w.field (p.child (.key key))) x) (hfs : Repeats (w.fields p) fs) :
    Repeats (w.fields p) ((key, x) :: fs) := by
  have hhead : w.field (p.child (.key key)) (w.field (p.child (.key key)) x).value =
      w.field (p.child (.key key)) x := hx
  have htail : w.fields p (w.fields p fs).value = w.fields p fs := hfs
  have hkeepAgain := keepsField_field hkeep
  unfold Repeats
  cases hstops : w.stops (w.field (p.child (.key key)) x).failures with
  | true =>
    -- The rest of the fields has been pruned and not cast; pruning it again changes nothing.
    have hagain := hstops
    rw [← hhead] at hagain
    rw [fields_cons_stopped hkeep hstops, fields_cons_stopped hkeepAgain hagain, hhead,
      prune_prune]
  | false =>
    have hagain := hstops
    rw [← hhead] at hagain
    rw [fields_cons hkeep hstops, fields_cons hkeepAgain hagain, hhead, htail]

end Lists

theorem field_singleton {u : Value} (hd : w.index.demand p = .items) :
    w.field p (.array [u]) = (w.field (p.child (.index 0)) u).map fun y => .array [y] := by
  rw [field_items hd]
  cases hstops : w.stops (w.field (p.child (.index 0)) u).failures with
  | true => rw [items_cons_stopped hstops]; rfl
  | false => rw [items_cons hstops]; simp [items, Walked.clean, Walked.map]

/-- The walk of a location is repeated by the walk of what it left there: a value that was made the
item of an array is walked as that item. -/
theorem repeats (hends : w.index.EndsInTypes) :
    Cases w.index (fun v p => Repeats (w.field p) v) (fun xs p i => Repeats (w.items p i) xs)
      (fun fs p => Repeats (w.fields p) fs) where
  null _ := .of_kept rfl
  array hd h := h.map (field_items hd) fun ys => field_items hd
  promoted hd hnull harray h := h.map (field_promoted hd hnull harray) fun u => field_singleton hd
  object hd h := h.map (field_object hd rfl) fun gs => field_object hd rfl
  misshapen hd hnull hobject := .of_kept (by rw [field_misshapen hd hnull hobject]; rfl)
  atom hi ho _ := by
    have hatom : w.field _ = w.atom _ := funext fun u => field_eq_atom hi ho
    rw [hatom]
    exact atom_repeats hends
  noItems _ _ := .of_kept rfl
  item hx hxs := items_cons_repeats hx hxs
  noFields _ := .of_kept rfl
  kept hkeep hx hfs := fields_cons_repeats hkeep hx hfs
  dropped hkeep hfs := by
    unfold Repeats at hfs ⊢
    rw [fields_cons_dropped hkeep, hfs]

end Walker

namespace Document

theorem walk_repeats {index : Index} (hends : index.EndsInTypes) (options : DocumentOptions)
    (v : Value) : Repeats (walk index options) v := by
  cases v with
  | object fs =>
    have hfields := (Walker.repeats (w := ⟨index, options.coerce, options.policy⟩) hends).fields fs
      (FieldPath.parse options.location)
    exact hfields.map (f := .object) rfl fun _ => rfl
  | _ => exact .of_kept rfl

/-- The built-in rules end in their types, and under any rules that do, a second cast under the
same options returns the value and the errors of the first. -/
theorem cast_idempotent :
    (∀ t ∈ ScalarType.builtins, t.EndsInType) ∧
    ∀ index : Index, index.EndsInTypes → ∀ (options : DocumentOptions) (v : Value),
      cast index options (cast index options v).value = cast index options v := by
  refine ⟨fun t ht => (ScalarType.isBuiltin_of_mem_builtins ht).lawful.endsInType, ?_⟩
  intro index hends options v
  have hwalk : walk index options (walk index options v).value = walk index options v :=
    walk_repeats hends options v
  have hvalue : (cast index options v).value = (walk index options v).value := rfl
  rw [hvalue, cast, cast, hwalk]

/-- A cast that stops at a member leaves the tags uncast, and so does the cast of what is left. -/
theorem cast_idempotent_bands :
    let v : Value := .object [("role", .null), ("points", .string "1"),
      ("members", .array [.string "Axl Rose"]), ("tags", .bool true)]
    let options : DocumentOptions := { policy := .failFast }
    bands.EndsInTypes ∧ (cast bands options v).errors.isSome = true ∧
      cast bands options (cast bands options v).value = cast bands options v :=
  ⟨bands_hasBuiltinRules.endsInTypes, by decide +kernel,
    cast_idempotent.2 bands bands_hasBuiltinRules.endsInTypes _ _⟩

end Document

end TypedDocs
