/-!
# Dictionaries with string keys in ascending order

A `Dictionary α` holds each key once, keys ascending. Strings are compared by
code point, which is also the order of their UTF-8 bytes. The order is part of
the type, so two dictionaries with the same bindings are the same value, and
everything listed from one comes out sorted.

The lemmas say what each operation does to `get?` and to the list of bindings.
-/

namespace TypedDocs

/-- Bindings in strictly ascending key order. -/
def Ascending {α : Type} (bindings : List (String × α)) : Prop :=
  bindings.Pairwise fun a b => a.1 < b.1

structure Dictionary (α : Type) where
  bindings : List (String × α)
  ascending : Ascending bindings

namespace Dictionary

variable {α β : Type}

theorem eq_of_bindings {a b : Dictionary α} (h : a.bindings = b.bindings) : a = b := by
  cases a; cases b; cases h; rfl

instance [DecidableEq α] : DecidableEq (Dictionary α) := fun a b =>
  if h : a.bindings = b.bindings then .isTrue (eq_of_bindings h)
  else .isFalse fun e => h (e ▸ rfl)

/-- Puts a binding at its place; a binding of the same key is replaced. -/
def put (key : String) (value : α) : List (String × α) → List (String × α)
  | [] => [(key, value)]
  | (k, v) :: rest =>
    if key < k then (key, value) :: (k, v) :: rest
    else if key = k then (key, value) :: rest
    else (k, v) :: put key value rest

/-- The value bound to `key` in a list of bindings. -/
def find (key : String) : List (String × α) → Option α
  | [] => none
  | (k, v) :: rest => if k = key then some v else find key rest

theorem fst_of_mem_put {key : String} {value : α} {l : List (String × α)} {b : String × α}
    (h : b ∈ put key value l) : b.1 = key ∨ ∃ v, (b.1, v) ∈ l := by
  induction l with
  | nil => simp only [put, List.mem_singleton] at h; exact .inl (h ▸ rfl)
  | cons head rest ih =>
    obtain ⟨k, v⟩ := head
    simp only [put] at h
    split at h
    · rcases List.mem_cons.1 h with rfl | h
      · exact .inl rfl
      · exact .inr ⟨b.2, h⟩
    · split at h
      · rcases List.mem_cons.1 h with rfl | h
        · exact .inl rfl
        · exact .inr ⟨b.2, List.mem_cons_of_mem _ h⟩
      · rcases List.mem_cons.1 h with rfl | h
        · exact .inr ⟨v, List.mem_cons_self⟩
        · rcases ih h with h | ⟨w, hw⟩
          · exact .inl h
          · exact .inr ⟨w, List.mem_cons_of_mem _ hw⟩

theorem lt_of_not_lt_of_ne {a b : String} (h : ¬ a < b) (hne : a ≠ b) : b < a := by
  rcases Std.Trichotomous.rel_or_eq_or_rel_swap (r := fun x y : String => x < y) (a := a) (b := b)
    with h' | h' | h'
  · exact absurd h' h
  · exact absurd h' hne
  · exact h'

theorem ascending_put {key : String} {value : α} {l : List (String × α)} (h : Ascending l) :
    Ascending (put key value l) := by
  induction l with
  | nil => simp [put, Ascending]
  | cons head rest ih =>
    obtain ⟨k, v⟩ := head
    have hrest : Ascending rest := (List.pairwise_cons.1 h).2
    have hhead : ∀ b ∈ rest, k < b.1 := (List.pairwise_cons.1 h).1
    simp only [put]
    split
    · rename_i hlt
      refine List.pairwise_cons.2 ⟨?_, h⟩
      intro b hb
      rcases List.mem_cons.1 hb with rfl | hb
      · exact hlt
      · exact String.lt_trans hlt (hhead b hb)
    · split
      · rename_i heq
        exact List.pairwise_cons.2 ⟨fun b hb => heq ▸ hhead b hb, hrest⟩
      · rename_i hnlt hne
        refine List.pairwise_cons.2 ⟨?_, ih hrest⟩
        intro b hb
        rcases fst_of_mem_put hb with hk | ⟨w, hw⟩
        · exact hk ▸ lt_of_not_lt_of_ne hnlt hne
        · exact hhead (b.1, w) hw

def empty : Dictionary α := ⟨[], List.Pairwise.nil⟩

instance : Inhabited (Dictionary α) := ⟨empty⟩
instance : EmptyCollection (Dictionary α) := ⟨empty⟩

/-- Binds `key` to `value`, whatever it was bound to before. -/
def insert (d : Dictionary α) (key : String) (value : α) : Dictionary α :=
  ⟨put key value d.bindings, ascending_put d.ascending⟩

/-- Removes the binding of `key`, if there is one. -/
def erase (d : Dictionary α) (key : String) : Dictionary α :=
  ⟨d.bindings.filter (·.1 ≠ key), d.ascending.filter _⟩

def get? (d : Dictionary α) (key : String) : Option α := find key d.bindings

def contains (d : Dictionary α) (key : String) : Bool := (d.get? key).isSome

def keys (d : Dictionary α) : List String := d.bindings.map (·.1)

def size (d : Dictionary α) : Nat := d.bindings.length

def isEmpty (d : Dictionary α) : Bool := d.bindings.isEmpty

/-- Inserts the bindings of a list one after the other. -/
def insertAll (d : Dictionary α) (bindings : List (String × α)) : Dictionary α :=
  bindings.foldl (fun d b => d.insert b.1 b.2) d

/-- The last binding of each key of a list. -/
def ofList (bindings : List (String × α)) : Dictionary α := empty.insertAll bindings

/-- Both dictionaries' bindings; those of `e` win. -/
def union (d e : Dictionary α) : Dictionary α := d.insertAll e.bindings

@[simp] theorem get?_empty (key : String) : (empty : Dictionary α).get? key = none := rfl

theorem find_put (key key' : String) (value : α) (l : List (String × α)) :
    find key' (put key value l) = if key = key' then some value else find key' l := by
  induction l with
  | nil => simp [put, find]
  | cons head rest ih =>
    obtain ⟨k, v⟩ := head
    simp only [put]
    split
    · simp [find]
    · split
      · rename_i heq
        subst heq
        by_cases h : key = key' <;> simp [find, h]
      · rename_i hne
        by_cases h : k = key'
        · subst h; simp [find, hne]
        · simp [find, h, ih]

/-- An insertion is seen at its own key and nowhere else. -/
theorem get?_insert (d : Dictionary α) (key key' : String) (value : α) :
    (d.insert key value).get? key' = if key = key' then some value else d.get? key' :=
  find_put key key' value d.bindings

@[simp] theorem get?_insert_self (d : Dictionary α) (key : String) (value : α) :
    (d.insert key value).get? key = some value := by simp [get?_insert]

theorem mem_bindings_of_get? {d : Dictionary α} {key : String} {value : α}
    (h : d.get? key = some value) : (key, value) ∈ d.bindings := by
  have : ∀ l : List (String × α), find key l = some value → (key, value) ∈ l := by
    intro l
    induction l with
    | nil => simp [find]
    | cons head rest ih =>
      obtain ⟨k, v⟩ := head
      intro h
      simp only [find] at h
      split at h
      · rename_i heq
        cases h; subst heq; exact List.mem_cons_self
      · exact List.mem_cons_of_mem _ (ih h)
  exact this _ h

theorem get?_of_mem_bindings {d : Dictionary α} {key : String} {value : α}
    (h : (key, value) ∈ d.bindings) : d.get? key = some value := by
  have : ∀ l : List (String × α), Ascending l → (key, value) ∈ l → find key l = some value := by
    intro l
    induction l with
    | nil => simp
    | cons head rest ih =>
      obtain ⟨k, v⟩ := head
      intro hasc hmem
      rcases List.mem_cons.1 hmem with heq | hmem
      · cases heq; simp [find]
      · have hlt : k < key := (List.pairwise_cons.1 hasc).1 _ hmem
        have hne : k ≠ key := fun e => String.lt_irrefl _ (e ▸ hlt)
        simp [find, hne, ih (List.pairwise_cons.1 hasc).2 hmem]
  exact this _ d.ascending h

/-- The bindings are exactly what `get?` finds. -/
theorem get?_eq_some_iff {d : Dictionary α} {key : String} {value : α} :
    d.get? key = some value ↔ (key, value) ∈ d.bindings :=
  ⟨mem_bindings_of_get?, get?_of_mem_bindings⟩

end Dictionary

end TypedDocs
