import TypedDocs.Proofs.Schema.Canonical

/-!
# Array levels below a key

The items of an array can be arrays again. A key goes down these levels by positional segments, or
a name goes down all that are left without being asked. So it does not matter how many of the
levels are written: a name below them comes to the field of the innermost items.
-/

namespace TypedDocs

/-- The key of the items some array levels below a key. -/
def itemsBelow (base : String) : Nat → String
  | 0 => base
  | n + 1 => join (itemsBelow base n) wildcard

theorem itemsBelow_succ (base : String) (n : Nat) :
    itemsBelow base (n + 1) = itemsBelow (join base wildcard) n := by
  induction n with
  | zero => rfl
  | succ n ih => rw [itemsBelow, ih, itemsBelow]

/-- Written out, the key has one wildcard for each level. -/
theorem join_itemsBelow {base : String} (hbase : base ≠ "") (n : Nat) (name : String) :
    join (itemsBelow base n) name =
      String.intercalate "." (base :: (List.replicate n wildcard ++ [name])) := by
  induction n generalizing base with
  | zero =>
    rw [itemsBelow, join_of_ne_empty hbase]
    simp
  | succ n ih =>
    rw [itemsBelow_succ, ih (join_base_ne_empty hbase), join_of_ne_empty hbase,
      String.intercalate_cons_append, List.replicate_succ, List.cons_append,
      String.intercalate_cons_cons]

/-- Positional segments for some of so many array levels. -/
structure WritesLevels (m : Nat) (segments : List String) : Prop where
  length_le : segments.length ≤ m
  positional : ∀ s ∈ segments, isPositional s = true
  undotted : ∀ s ∈ segments, '.' ∉ s.toList

namespace Index

variable {index : Index} {base name : String} {m : Nat} {p : FieldPath}

/-- Below a key there are so many array levels with declared items, one in the other, and no
more. -/
structure HasArrayLevels (index : Index) (base : String) (m : Nat) : Prop where
  level : ∀ i < m, index.lookup (itemsBelow base i) = .array ∧
    index.contains (itemsBelow base (i + 1)) = true
  last : ¬ (index.lookup (itemsBelow base m) = .array ∧
    index.contains (itemsBelow base (m + 1)) = true)

/-- From any level on, a name goes down to the last one. -/
theorem HasArrayLevels.schema_enterItems (h : index.HasArrayLevels base m) {k j : Nat}
    (hj : j + k = m) (hp : p.schema = itemsBelow base j) :
    (index.enterItems p).schema = itemsBelow base m := by
  induction k generalizing j p with
  | zero =>
    have hstays : index.entersItems p = false := by
      rw [← Bool.not_eq_true, entersItems_iff, hp]
      have hlast := h.last
      rwa [← hj] at hlast
    rw [enterItems_of_stays hstays, hp, ← hj]
    rfl
  | succ k ih =>
    have henters : index.entersItems p = true := by
      rw [entersItems_iff, hp]
      exact h.level j (by omega)
    rw [enterItems_of_enters henters]
    exact ih (j := j + 1) (by omega) (congrArg (join · wildcard) hp)

theorem schema_foldl_positional {segments : List String}
    (hpositional : ∀ s ∈ segments, isPositional s = true) (p : FieldPath) :
    (segments.foldl index.followSegment p).schema = itemsBelow p.schema segments.length := by
  induction segments generalizing p with
  | nil => rfl
  | cons s rest ih =>
    rw [List.foldl_cons, followSegment_positional (hpositional s List.mem_cons_self),
      ih fun t ht => hpositional t (List.mem_cons_of_mem _ ht), List.length_cons, itemsBelow_succ]
    rfl

/-- No step leads to the root, if the root is an array with declared items. -/
theorem schema_followSegment_ne_empty (henters : index.entersItems .root = true) {s : String} :
    (index.followSegment p s).schema ≠ "" := by
  cases hpositional : isPositional s with
  | true =>
    rw [followSegment_positional hpositional]
    exact Definition.join_ne_empty (by decide)
  | false =>
    rw [followSegment_named hpositional]
    refine join_base_ne_empty fun hroot => ?_
    have hstays : index.entersItems (index.enterItems p) = false := entersItems_enterItems p
    rw [entersItems_congr (q := .root) hroot, henters] at hstays
    cases hstays

theorem schema_foldl_ne_empty (henters : index.entersItems .root = true) {segments : List String}
    (hp : p.schema ≠ "") : (segments.foldl index.followSegment p).schema ≠ "" := by
  induction segments generalizing p with
  | nil => exact hp
  | cons s rest ih => exact ih (schema_followSegment_ne_empty henters)

theorem HasArrayLevels.ne_empty (h : index.HasArrayLevels base m) (hm : 1 ≤ m) {key : String}
    (hkey : (index.resolve .root key).schema = base) : base ≠ "" := by
  rintro rfl
  have henters : index.entersItems .root = true := entersItems_iff.2 (h.level 0 (by omega))
  obtain ⟨s, rest, hsegments⟩ := exists_segments key
  rw [resolve, hsegments, List.foldl_cons] at hkey
  exact schema_foldl_ne_empty henters (schema_followSegment_ne_empty henters) hkey

/-- A name below an array, with any positional segments before it for some of the levels, comes to
the field of the innermost items. -/
theorem HasArrayLevels.schema_resolve (h : index.HasArrayLevels base m) (hm : 1 ≤ m)
    {key : String} (hkey : (index.resolve .root key).schema = base)
    (hname : isPositional name = false) (hundotted : '.' ∉ name.toList) {segments : List String}
    (hwritten : WritesLevels m segments) :
    (index.resolve .root (String.intercalate "." (key :: (segments ++ [name])))).schema =
      String.intercalate "." (base :: (List.replicate m wildcard ++ [name])) := by
  have hall : ∀ s ∈ segments ++ [name], '.' ∉ s.toList := by
    intro s hs
    rcases List.mem_append.1 hs with hs | hs
    · exact hwritten.undotted s hs
    · exact List.mem_singleton.1 hs ▸ hundotted
  have hlevel : (segments.foldl index.followSegment (index.resolve .root key)).schema =
      itemsBelow base segments.length := by
    rw [schema_foldl_positional hwritten.positional, hkey]
  have hlast := h.schema_enterItems (k := m - segments.length)
    (by have := hwritten.length_le; omega) hlevel
  rw [resolve_intercalate _ _ hall, List.foldl_append, List.foldl_cons, List.foldl_nil,
    followSegment_named hname, ← join_itemsBelow (h.ne_empty hm hkey)]
  exact congrArg (join · name) hlast

end Index

end TypedDocs
