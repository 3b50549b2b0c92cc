import Mathlib.Data.List.Nodup
import Mathlib.Data.List.Perm.Subperm
import TypedDocs.Proofs.Cast.Aggregate

/-!
# Dictionaries by what they hold

A dictionary is known by what it finds at each key, in whatever order its bindings have been
put into it. One made of a list has the keys of the list, and as many of them as the list has
rows if no two rows have the same key. It holds the last row of each key, and the dictionary of
two lists one after the other is the union of theirs, in which the second one wins.
-/

namespace TypedDocs

namespace Dictionary

variable {α : Type} {d e : Dictionary α} {rows more : List (String × α)} {key : String}

theorem mem_keys_iff : key ∈ d.keys ↔ (d.get? key).isSome = true := by
  rw [Option.isSome_iff_exists]
  constructor
  · intro hmem
    obtain ⟨⟨_, value⟩, hbinding, rfl⟩ := List.mem_map.1 hmem
    exact ⟨value, get?_of_mem_bindings hbinding⟩
  · rintro ⟨value, hget⟩
    exact List.mem_map.2 ⟨_, mem_bindings_of_get? hget, rfl⟩

theorem nodup_keys (d : Dictionary α) : d.keys.Nodup := by
  refine List.Pairwise.map _ (fun a b hlt heq => ?_) d.ascending
  rw [heq] at hlt
  exact String.lt_irrefl _ hlt

theorem nodup_bindings (d : Dictionary α) : d.bindings.Nodup :=
  List.Nodup.of_map _ d.nodup_keys

/-- Dictionaries that find the same are the same. -/
theorem ext_get? (h : ∀ key, d.get? key = e.get? key) : d = e := by
  have hmem : ∀ b, b ∈ d.bindings ↔ b ∈ e.bindings := fun b => by
    rw [← get?_eq_some_iff (d := d), ← get?_eq_some_iff (d := e), h]
  have hperm := (List.perm_ext_iff_of_nodup d.nodup_bindings e.nodup_bindings).2 hmem
  refine eq_of_bindings (hperm.eq_of_pairwise ?_ d.ascending e.ascending)
  intro a b _ _ hab hba
  exact absurd (String.lt_trans hab hba) (String.lt_irrefl _)

theorem keys_eq_of_mem_iff {β : Type} {e : Dictionary β} (h : ∀ key, key ∈ d.keys ↔ key ∈ e.keys) :
    d.keys = e.keys := by
  have hperm := (List.perm_ext_iff_of_nodup d.nodup_keys e.nodup_keys).2 h
  have hascending : ∀ {γ : Type} (d : Dictionary γ), d.keys.Pairwise (· < ·) :=
    fun d => List.Pairwise.map _ (fun _ _ hlt => hlt) d.ascending
  refine hperm.eq_of_pairwise ?_ (hascending d) (hascending e)
  intro a b _ _ hab hba
  exact absurd (String.lt_trans hab hba) (String.lt_irrefl _)

theorem insertAll_append : d.insertAll (rows ++ more) = (d.insertAll rows).insertAll more :=
  List.foldl_append

theorem ofList_bindings (d : Dictionary α) : ofList d.bindings = d := by
  refine ext_get? fun key => Option.ext fun value => ?_
  rw [get?_ofList_eq_some_iff d.nodup_keys, get?_eq_some_iff]

theorem mem_keys_ofList_iff : key ∈ (ofList rows).keys ↔ key ∈ rows.map Prod.fst := by
  rw [mem_keys_iff]
  constructor
  · intro hsome
    obtain ⟨value, hget⟩ := Option.isSome_iff_exists.1 hsome
    rcases get?_insertAll_some hget with hrow | hempty
    · exact List.mem_map.2 ⟨_, hrow, rfl⟩
    · cases hempty
  · intro hmem
    obtain ⟨⟨_, value⟩, hrow, rfl⟩ := List.mem_map.1 hmem
    exact isSome_get?_insertAll (.inr ⟨value, hrow⟩)

/-- The keys of a list are those of its dictionary, in some order, if no two are the same. -/
theorem keys_ofList_perm_iff : (ofList rows).keys.Perm (rows.map Prod.fst) ↔
    (rows.map Prod.fst).Nodup :=
  ⟨fun hperm => hperm.nodup_iff.1 (nodup_keys _), fun hnodup =>
    (List.perm_ext_iff_of_nodup (nodup_keys _) hnodup).2 fun _ => mem_keys_ofList_iff⟩

/-- No row gets lost exactly if no two rows have the same key. -/
theorem size_ofList_iff : (ofList rows).size = rows.length ↔ (rows.map Prod.fst).Nodup := by
  rw [← keys_ofList_perm_iff]
  have hsize : (ofList rows).size = (ofList rows).keys.length := (List.length_map _).symm
  have hrows : rows.length = (rows.map Prod.fst).length := (List.length_map _).symm
  rw [hsize, hrows]
  constructor
  · intro hlength
    have hsubset : (ofList rows).keys ⊆ rows.map Prod.fst := fun _ => mem_keys_ofList_iff.1
    exact (List.subperm_of_subset (nodup_keys _) hsubset).perm_of_length_le (by omega)
  · exact List.Perm.length_eq

section Union

variable {f : Dictionary α}

/-- What is inserted is found before what was there. -/
theorem get?_insertAll :
    (d.insertAll rows).get? key = ((ofList rows).get? key).or (d.get? key) := by
  induction rows generalizing d with
  | nil => rfl
  | cons row rows ih =>
    have hstep : ∀ e : Dictionary α, (e.insertAll (row :: rows)).get? key =
        ((ofList rows).get? key).or (if row.1 = key then some row.2 else e.get? key) := by
      intro e
      rw [← get?_insert]
      exact ih
    have hlist : ofList (row :: rows) = empty.insertAll (row :: rows) := rfl
    rw [hstep, hlist, hstep, Option.or_assoc]
    split
    · rfl
    · rfl

theorem get?_union : (d.union e).get? key = (e.get? key).or (d.get? key) := by
  rw [union, get?_insertAll, ofList_bindings]

theorem union_assoc : (d.union e).union f = d.union (e.union f) := by
  refine ext_get? fun key => ?_
  simp only [get?_union, Option.or_assoc]

theorem union_empty : d.union empty = d := rfl

theorem empty_union : empty.union d = d := ofList_bindings d

theorem ofList_append : ofList (rows ++ more) = (ofList rows).union (ofList more) := by
  refine ext_get? fun key => ?_
  rw [ofList, insertAll_append, get?_insertAll, get?_union]
  rfl

end Union

section Last

variable {row new : String × α}

/-- A row of a list that no later row of its key replaces. -/
def IsLast (rows : List (String × α)) (row : String × α) : Prop :=
  ∃ before after, rows = before ++ row :: after ∧ row.1 ∉ after.map Prod.fst

theorem not_isLast_nil : ¬ IsLast [] row := by
  rintro ⟨before, after, heq, -⟩
  exact absurd heq.symm (List.append_ne_nil_of_right_ne_nil before (List.cons_ne_nil row after))

theorem isLast_cons :
    IsLast (new :: rows) row ↔ IsLast rows row ∨ (new = row ∧ row.1 ∉ rows.map Prod.fst) := by
  constructor
  · rintro ⟨before, after, heq, hnot⟩
    cases before with
    | nil =>
      obtain ⟨rfl, rfl⟩ := List.cons.inj heq
      exact .inr ⟨rfl, hnot⟩
    | cons first before =>
      obtain ⟨rfl, rfl⟩ := List.cons.inj heq
      exact .inl ⟨before, after, rfl, hnot⟩
  · rintro (⟨before, after, rfl, hnot⟩ | ⟨rfl, hnot⟩)
    · exact ⟨new :: before, after, rfl, hnot⟩
    · exact ⟨[], rows, rfl, hnot⟩

theorem get?_ofList_eq_none_iff : (ofList rows).get? key = none ↔ key ∉ rows.map Prod.fst := by
  rw [← mem_keys_ofList_iff, mem_keys_iff, Option.not_isSome_iff_eq_none]

/-- A dictionary made of a list holds the last row of each key. -/
theorem mem_bindings_ofList_iff : row ∈ (ofList rows).bindings ↔ IsLast rows row := by
  obtain ⟨key, value⟩ := row
  rw [← get?_eq_some_iff]
  induction rows with
  | nil =>
    constructor
    · intro h
      cases h
    · intro h
      exact absurd h not_isLast_nil
  | cons new rows ih =>
    have hfound : (ofList (new :: rows)).get? key =
        ((ofList rows).get? key).or (if new.1 = key then some new.2 else none) := by
      have hfirst : ofList (new :: rows) = (empty.insert new.1 new.2).insertAll rows := rfl
      rw [hfirst, get?_insertAll, get?_insert, get?_empty]
    have hnew : (if new.1 = key then some new.2 else none) = some value ↔ new = (key, value) := by
      rw [Prod.ext_iff]
      simp
    rw [isLast_cons, ← ih, hfound, Option.or_eq_some_iff, hnew, get?_ofList_eq_none_iff, and_comm]

end Last

section Filling

variable {β ε : Type} {name : β → String} {f : β → Except ε α} {xs : List β}

/-- The rows that the elements of a list leave, where each of them leaves one. -/
def rowsOf (name : β → String) (f : β → Except ε α) (xs : List β) : List (String × α) :=
  xs.filterMap fun x => (f x).toOption.map fun value => (name x, value)

theorem mem_rowsOf_iff {row : String × α} :
    row ∈ rowsOf name f xs ↔ ∃ x ∈ xs, name x = row.1 ∧ f x = .ok row.2 := by
  simp only [rowsOf, List.mem_filterMap, Option.map_eq_some_iff]
  constructor
  · rintro ⟨x, hx, value, hvalue, rfl⟩
    cases hfx : f x with
    | error e => rw [hfx] at hvalue; cases hvalue
    | ok found =>
      rw [hfx] at hvalue
      cases hvalue
      exact ⟨x, hx, rfl, hfx⟩
  · rintro ⟨x, hx, hname, hfx⟩
    exact ⟨x, hx, row.2, by rw [hfx]; rfl, by rw [hname]⟩

theorem rowsOf_cons {x : β} {value : α} (h : f x = .ok value) :
    rowsOf name f (x :: xs) = (name x, value) :: rowsOf name f xs := by
  rw [rowsOf, List.filterMap_cons_some (by rw [h]; rfl)]
  rfl

theorem map_fst_rowsOf (h : ∀ x ∈ xs, ∃ value, f x = .ok value) :
    (rowsOf name f xs).map Prod.fst = xs.map name := by
  induction xs with
  | nil => rfl
  | cons x xs ih =>
    obtain ⟨value, hvalue⟩ := h x List.mem_cons_self
    rw [rowsOf_cons hvalue, List.map_cons, List.map_cons,
      ih fun y hy => h y (List.mem_cons_of_mem _ hy)]

/-- A dictionary that is filled element by element holds the rows of all elements, each of which
has one. -/
theorem foldlM_insert_eq_ok : (xs.foldlM (fun d x => do
      let value ← f x
      .ok (d.insert (name x) value)) d) = .ok e ↔
    (∀ x ∈ xs, ∃ value, f x = .ok value) ∧ e = d.insertAll (rowsOf name f xs) := by
  induction xs generalizing d with
  | nil =>
    have hrows : d.insertAll (rowsOf name f []) = d := rfl
    rw [hrows]
    simp only [List.foldlM_nil, pure, Except.pure, Except.ok.injEq, List.not_mem_nil,
      false_implies, implies_true, true_and]
    exact eq_comm
  | cons x xs ih =>
    rw [List.foldlM_cons, List.forall_mem_cons]
    cases hfx : f x with
    | error err => simp [bind, Except.bind]
    | ok value =>
      rw [rowsOf_cons hfx]
      simp only [bind, Except.bind]
      refine ih.trans ?_
      simp only [Except.ok.injEq, exists_eq', true_and]
      rfl

end Filling

end Dictionary

end TypedDocs
