import Mathlib.Data.Set.Insert
import Mathlib.Logic.Relation
import TypedDocs.Proofs.Document.Walk

/-!
# Locations of a value, and complaints about them

A location is a value at a path, with how it was come to. The fields of an object
location and the items of an array location with typed items are one step below it.
What is wrong at a location is read off the value that is there; no walk is run.
`Audited` relates a list of failures to all locations at or below a set of them.
-/

namespace TypedDocs

/-- How a location was come to. -/
inductive Site where
  | document
  | field
  | item
deriving DecidableEq

structure Location where
  site : Site
  path : FieldPath
  value : Value

namespace Location

/-- A document has to be an object, whatever the index says about where it is located. -/
def demand (index : Index) (l : Location) : Demand :=
  match l.site with
  | .document => .object
  | .field | .item => index.demand l.path

theorem demand_of_site {index : Index} {site : Site} {p : FieldPath} {v : Value}
    (hsite : site ≠ .document) : demand index ⟨site, p, v⟩ = index.demand p := by
  cases site with
  | document => exact absurd rfl hsite
  | field => rfl
  | item => rfl

/-- What is wrong at a location. Only an item may be null in place of an object. -/
def complaint? (index : Index) (l : Location) : Option CastError :=
  match l.demand index with
  | .scalar t => if t.accepts l.value then none else some (.ofType l.value t.name)
  | .object =>
    if l.value.isObject || (l.site = .item && l.value.isNull) then none
    else some (.ofShape l.value objectName)
  | .items | .nothing => none

/-- The complaint with the instance key of the location. -/
def failure? (index : Index) (l : Location) : Option Failure :=
  (l.complaint? index).map fun e => (l.path.instanceKey, e)

/-- From a location to a field of its object, or to an item of its array. -/
inductive Step (index : Index) : Location → Location → Prop
  | field {l : Location} {fs : Fields} {key : String} {x : Value} :
      l.demand index = .object → l.value = .object fs → (key, x) ∈ fs →
      Step index l ⟨.field, l.path.child (.key key), x⟩
  | item {l : Location} {xs : List Value} {i : Nat} {x : Value} :
      l.demand index = .items → l.value = .array xs → xs[i]? = some x →
      Step index l ⟨.item, l.path.child (.index i), x⟩

/-- From a location to itself or to one any number of steps below. -/
def Below (index : Index) : Location → Location → Prop := Relation.ReflTransGen (Step index)

/-- An object has declared fields only, none of them a null object, and typed items stand in an
array. -/
structure Tidy (index : Index) (l : Location) : Prop where
  declared : l.demand index = .object → ∀ fs, l.value = .object fs → ∀ f ∈ fs,
    index.contains (l.path.child (.key f.1)).schema = true
  no_null_object : l.demand index = .object → ∀ fs, l.value = .object fs → ∀ f ∈ fs,
    index.lookup (l.path.child (.key f.1)).schema = .object → f.2 ≠ .null
  items : l.demand index = .items → l.value = .null ∨ ∃ xs, l.value = .array xs

theorem below_iff {index : Index} {l m : Location} :
    Below index l m ↔ m = l ∨ ∃ c, Step index l c ∧ Below index c m := by
  unfold Below
  rw [Relation.ReflTransGen.cases_head_iff]
  constructor
  · rintro (rfl | h)
    · exact .inl rfl
    · exact .inr h
  · rintro (rfl | h)
    · exact .inl rfl
    · exact .inr h

/-- The failures are those of the locations at or below the given ones, and all those are tidy. -/
structure Audited (index : Index) (roots : Set Location) (failures : List Failure) : Prop where
  failures_iff : ∀ f, f ∈ failures ↔
    ∃ l ∈ roots, ∃ m, Below index l m ∧ m.failure? index = some f
  tidy : ∀ l ∈ roots, ∀ m, Below index l m → m.Tidy index

section Audits

variable {index : Index} {l : Location} {roots others : Set Location} {fails more : List Failure}

theorem audited_empty : Audited index ∅ [] where
  failures_iff f := by simp
  tidy l hl := absurd hl (Set.notMem_empty l)

theorem Audited.union (h : Audited index roots fails) (h' : Audited index others more) :
    Audited index (roots ∪ others) (fails ++ more) where
  failures_iff f := by
    rw [List.mem_append, h.failures_iff, h'.failures_iff]
    constructor
    · rintro (⟨l, hl, hm⟩ | ⟨l, hl, hm⟩)
      · exact ⟨l, .inl hl, hm⟩
      · exact ⟨l, .inr hl, hm⟩
    · rintro ⟨l, hl | hl, hm⟩
      · exact .inl ⟨l, hl, hm⟩
      · exact .inr ⟨l, hl, hm⟩
  tidy l hl := by
    rcases hl with hl | hl
    · exact h.tidy l hl
    · exact h'.tidy l hl

/-- A location without a complaint of its own has the failures of what is one step below. -/
theorem audited_node (hc : l.complaint? index = none) (ht : l.Tidy index)
    (h : Audited index {c | Step index l c} fails) : Audited index {l} fails where
  failures_iff f := by
    rw [h.failures_iff]
    constructor
    · rintro ⟨c, hc, m, hm, hf⟩
      exact ⟨l, rfl, m, below_iff.2 (.inr ⟨c, hc, hm⟩), hf⟩
    · rintro ⟨_, rfl, m, hm, hf⟩
      rcases below_iff.1 hm with rfl | ⟨c, hstep, hm⟩
      · simp [failure?, hc] at hf
      · exact ⟨c, hstep, m, hm, hf⟩
  tidy := by
    rintro _ rfl m hm
    rcases below_iff.1 hm with rfl | ⟨c, hstep, hm⟩
    · exact ht
    · exact h.tidy c hstep m hm

/-- A location with nothing below it has its own failure, if there is one. -/
theorem audited_leaf (hleaf : ∀ c, ¬ Step index l c) (ht : l.Tidy index) :
    Audited index {l} (l.failure? index).toList where
  failures_iff f := by
    rw [Option.mem_toList]
    constructor
    · intro hf
      exact ⟨l, rfl, l, below_iff.2 (.inl rfl), hf⟩
    · rintro ⟨_, rfl, m, hm, hf⟩
      rcases below_iff.1 hm with rfl | ⟨c, hstep, -⟩
      · exact hf
      · exact absurd hstep (hleaf c)
  tidy := by
    rintro _ rfl m hm
    rcases below_iff.1 hm with rfl | ⟨c, hstep, -⟩
    · exact ht
    · exact absurd hstep (hleaf c)

end Audits

/-- The locations of the items of an array, the first of them at index `i`. -/
def ofItems (p : FieldPath) (i : Nat) : List Value → Set Location
  | [] => ∅
  | x :: xs => {⟨.item, p.child (.index i), x⟩} ∪ ofItems p (i + 1) xs

/-- The locations of the fields of an object. -/
def ofFields (p : FieldPath) : List (String × Value) → Set Location
  | [] => ∅
  | (key, x) :: fs => {⟨.field, p.child (.key key), x⟩} ∪ ofFields p fs

theorem mem_ofItems {p : FieldPath} {i : Nat} {xs : List Value} {l : Location} :
    l ∈ ofItems p i xs ↔ ∃ j x, xs[j]? = some x ∧ l = ⟨.item, p.child (.index (i + j)), x⟩ := by
  induction xs generalizing i with
  | nil => simp [ofItems]
  | cons y ys ih =>
    rw [ofItems, Set.mem_union, ih, Set.mem_singleton_iff]
    constructor
    · rintro (rfl | ⟨j, x, hx, rfl⟩)
      · exact ⟨0, y, rfl, rfl⟩
      · exact ⟨j + 1, x, hx, by rw [Nat.add_assoc, Nat.add_comm 1 j]⟩
    · rintro ⟨j, x, hx, rfl⟩
      cases j with
      | zero => cases hx; exact .inl rfl
      | succ j => exact .inr ⟨j, x, hx, by rw [Nat.add_assoc, Nat.add_comm 1 j]⟩

theorem mem_ofFields {p : FieldPath} {fs : Fields} {l : Location} :
    l ∈ ofFields p fs ↔ ∃ key x, (key, x) ∈ fs ∧ l = ⟨.field, p.child (.key key), x⟩ := by
  induction fs with
  | nil => simp [ofFields]
  | cons f fs ih =>
    obtain ⟨key, x⟩ := f
    rw [ofFields, Set.mem_union, ih, Set.mem_singleton_iff]
    constructor
    · rintro (rfl | ⟨k, y, hmem, rfl⟩)
      · exact ⟨key, x, List.mem_cons_self, rfl⟩
      · exact ⟨k, y, List.mem_cons_of_mem _ hmem, rfl⟩
    · rintro ⟨k, y, hmem, rfl⟩
      rcases List.mem_cons.1 hmem with heq | hmem
      · cases heq; exact .inl rfl
      · exact .inr ⟨k, y, hmem, rfl⟩

theorem step_iff_of_items {index : Index} {l : Location} {xs : List Value}
    (hd : l.demand index = .items) (hv : l.value = .array xs) :
    {c | Step index l c} = ofItems l.path 0 xs := by
  ext c
  rw [mem_ofItems]
  constructor
  · intro (h : Step index l c)
    cases h with
    | field hd' _ _ => rw [hd] at hd'; cases hd'
    | @item ys i x _ hv' hx =>
      rw [hv] at hv'
      cases hv'
      exact ⟨i, x, hx, by rw [Nat.zero_add]⟩
  · rintro ⟨i, x, hx, rfl⟩
    rw [Nat.zero_add]
    exact .item hd hv hx

theorem step_iff_of_object {index : Index} {l : Location} {fs : Fields}
    (hd : l.demand index = .object) (hv : l.value = .object fs) :
    {c | Step index l c} = ofFields l.path fs := by
  ext c
  rw [mem_ofFields]
  constructor
  · intro (h : Step index l c)
    cases h with
    | @field gs key x _ hv' hmem =>
      rw [hv] at hv'
      cases hv'
      exact ⟨key, x, hmem, rfl⟩
    | item hd' _ _ => rw [hd] at hd'; cases hd'
  · rintro ⟨key, x, hmem, rfl⟩
    exact .field hd hv hmem

end Location

end TypedDocs
