import TypedDocs.Json.Node

/-!
# Names of fields

Two tests of all objects inside a value: no name is used twice in one object, and no
name holds a point. A value read from a JSON text passes the first, because a repeated
member replaces the one before it. Values built in other ways need not.
-/

namespace TypedDocs

namespace Value

mutual
/-- Every object at any depth passes a test of its fields. -/
def everyObject (test : Fields → Bool) : Value → Bool
  | .array xs => everyObjectOfItems test xs
  | .object fs => test fs && everyObjectOfFields test fs
  | _ => true
def everyObjectOfItems (test : Fields → Bool) : List Value → Bool
  | [] => true
  | x :: xs => everyObject test x && everyObjectOfItems test xs
def everyObjectOfFields (test : Fields → Bool) : List (String × Value) → Bool
  | [] => true
  | (_, x) :: fs => everyObject test x && everyObjectOfFields test fs
end

theorem everyObjectOfItems_iff {test : Fields → Bool} {xs : List Value} :
    everyObjectOfItems test xs = true ↔ ∀ x ∈ xs, everyObject test x = true := by
  induction xs with
  | nil => simp [everyObjectOfItems]
  | cons x xs ih => simp [everyObjectOfItems, ih]

theorem everyObjectOfFields_iff {test : Fields → Bool} {fs : Fields} :
    everyObjectOfFields test fs = true ↔ ∀ f ∈ fs, everyObject test f.2 = true := by
  induction fs with
  | nil => simp [everyObjectOfFields]
  | cons f fs ih => simp [everyObjectOfFields, ih]

end Value

namespace Fields

/-- No name is used twice. -/
def areDistinct (fs : Fields) : Bool := decide (fs.map Prod.fst).Nodup

/-- No name holds a point. -/
def areUndotted (fs : Fields) : Bool := fs.all fun f => !f.1.toList.contains '.'

theorem mem_assign {fs : Fields} {key : String} {value : Value} {f : String × Value}
    (h : f ∈ fs.assign key value) : f = (key, value) ∨ f ∈ fs := by
  induction fs with
  | nil => exact .inl (List.mem_singleton.1 h)
  | cons first fs ih =>
    obtain ⟨k, v⟩ := first
    simp only [assign] at h
    split at h
    · rename_i heq
      rcases List.mem_cons.1 h with hfirst | hrest
      · exact .inl (heq ▸ hfirst)
      · exact .inr (List.mem_cons_of_mem _ hrest)
    · rcases List.mem_cons.1 h with hfirst | hrest
      · exact .inr (hfirst ▸ List.mem_cons_self)
      · rcases ih hrest with hnew | hold
        · exact .inl hnew
        · exact .inr (List.mem_cons_of_mem _ hold)

theorem mem_of_get? {fs : Fields} {key : String} {value : Value} (h : fs.get? key = some value) :
    (key, value) ∈ fs := by
  induction fs with
  | nil => cases h
  | cons f fs ih =>
    obtain ⟨k, y⟩ := f
    rw [get?] at h
    split at h
    · rename_i heq
      cases h
      rw [heq]
      exact List.mem_cons_self
    · exact List.mem_cons_of_mem _ (ih h)

theorem isSome_get?_iff {fs : Fields} {key : String} :
    (fs.get? key).isSome = true ↔ key ∈ fs.map Prod.fst := by
  induction fs with
  | nil => simp [get?]
  | cons f fs ih =>
    obtain ⟨k, v⟩ := f
    rw [get?, List.map_cons, List.mem_cons]
    split
    · rename_i heq
      simp [heq]
    · rename_i hne
      rw [ih]
      exact ⟨.inr, fun h => h.resolve_left (Ne.symm hne)⟩

theorem get?_assign_self (fs : Fields) (key : String) (value : Value) :
    (fs.assign key value).get? key = some value := by
  induction fs with
  | nil => simp [assign, get?]
  | cons f fs ih =>
    obtain ⟨k, v⟩ := f
    by_cases heq : k = key
    · simp [assign, get?, heq]
    · simp [assign, get?, heq, ih]

/-- Of two values that a field is set to, the later one stays, in the place of the first. -/
theorem assign_assign (fs : Fields) (key : String) (u v : Value) :
    (fs.assign key u).assign key v = fs.assign key v := by
  induction fs with
  | nil => simp [assign]
  | cons f fs ih =>
    obtain ⟨k, w⟩ := f
    by_cases heq : k = key
    · simp [assign, heq]
    · simp [assign, heq, ih]

/-- Setting a field leaves distinct names distinct. -/
theorem nodup_assign {fs : Fields} (h : (fs.map Prod.fst).Nodup) (key : String) (value : Value) :
    ((fs.assign key value).map Prod.fst).Nodup := by
  induction fs with
  | nil => simp [assign]
  | cons first fs ih =>
    obtain ⟨k, v⟩ := first
    obtain ⟨hk, hfs⟩ := List.nodup_cons.1 (List.map_cons ▸ h)
    simp only [assign]
    split
    · exact List.map_cons ▸ List.nodup_cons.2 ⟨hk, hfs⟩
    · rename_i hne
      refine List.map_cons ▸ List.nodup_cons.2 ⟨?_, ih hfs⟩
      intro hmem
      obtain ⟨f, hf, hname⟩ := List.mem_map.1 hmem
      rcases mem_assign hf with rfl | hold
      · exact hne hname.symm
      · exact hk (List.mem_map.2 ⟨f, hold, hname⟩)

theorem ofMembers_induction {Q : Fields → Prop} (hempty : Q [])
    {members : List (String × Value)}
    (hassign : ∀ fs, Q fs → ∀ m ∈ members, Q (fs.assign m.1 m.2)) : Q (ofMembers members) := by
  have hall : ∀ rest : List (String × Value), (∀ m ∈ rest, m ∈ members) → ∀ fs : Fields, Q fs →
      Q (rest.foldl (fun fields m => fields.assign m.1 m.2) fs) := by
    intro rest
    induction rest with
    | nil => exact fun _ fs hfs => hfs
    | cons m rest ih =>
      intro hmem fs hfs
      exact ih (fun n hn => hmem n (List.mem_cons_of_mem _ hn)) _
        (hassign fs hfs m (hmem m List.mem_cons_self))
  exact hall members (fun m hm => hm) [] hempty

theorem assign_of_not_mem {fs : Fields} {key : String} (h : key ∉ fs.map Prod.fst) (value : Value) :
    fs.assign key value = fs ++ [(key, value)] := by
  induction fs with
  | nil => rfl
  | cons f fs ih =>
    obtain ⟨k, v⟩ := f
    rw [List.map_cons, List.mem_cons, not_or] at h
    rw [assign, if_neg (Ne.symm h.1), ih h.2]
    rfl

/-- Members of different names are the fields of an object as they stand. -/
theorem ofMembers_of_nodup {members : List (String × Value)}
    (h : (members.map Prod.fst).Nodup) : ofMembers members = members := by
  have happend : ∀ (rest : List (String × Value)) (fs : Fields),
      ((fs ++ rest).map Prod.fst).Nodup →
        rest.foldl (fun fields m => fields.assign m.1 m.2) fs = fs ++ rest := by
    intro rest
    induction rest with
    | nil => exact fun fs _ => (List.append_nil fs).symm
    | cons m rest ih =>
      intro fs hnodup
      have hnew : m.1 ∉ fs.map Prod.fst := by
        rw [List.map_append, List.map_cons, List.nodup_append] at hnodup
        exact fun hmem => hnodup.2.2 _ hmem _ List.mem_cons_self rfl
      rw [List.foldl_cons, assign_of_not_mem hnew, ih, List.append_assoc]
      · rfl
      · rwa [List.append_assoc]
  exact happend members [] h

end Fields

namespace Value

/-- No object at any depth has two fields of one name. -/
def hasDistinctNames : Value → Bool := everyObject Fields.areDistinct

/-- No name at any depth holds a point. -/
def hasUndottedNames : Value → Bool := everyObject Fields.areUndotted

theorem distinct_cons {key : String} {x : Value} {fs : Fields}
    (h : (object ((key, x) :: fs)).hasDistinctNames = true) :
    key ∉ fs.map Prod.fst ∧ x.hasDistinctNames = true ∧ (object fs).hasDistinctNames = true := by
  simp only [hasDistinctNames, everyObject, everyObjectOfFields, Fields.areDistinct,
    decide_eq_true_eq, List.map_cons, List.nodup_cons, Bool.and_eq_true] at h ⊢
  exact ⟨h.1.1, h.2.1, h.1.2, h.2.2⟩

theorem undotted_cons {key : String} {x : Value} {fs : Fields}
    (h : (object ((key, x) :: fs)).hasUndottedNames = true) :
    '.' ∉ key.toList ∧ x.hasUndottedNames = true ∧ (object fs).hasUndottedNames = true := by
  simp only [hasUndottedNames, everyObject, everyObjectOfFields, Fields.areUndotted,
    List.all_cons, Bool.and_eq_true] at h ⊢
  exact ⟨by simpa using h.1.1, h.2.1, h.1.2, h.2.2⟩

theorem hasDistinctNames_ofMembers {members : Fields}
    (h : everyObjectOfFields Fields.areDistinct members = true) :
    (object (Fields.ofMembers members)).hasDistinctNames = true := by
  have hvalues := everyObjectOfFields_iff.1 h
  have hmembers : ((Fields.ofMembers members).map Prod.fst).Nodup ∧
      ∀ f ∈ Fields.ofMembers members, everyObject Fields.areDistinct f.2 = true := by
    refine Fields.ofMembers_induction (Q := fun fs => (fs.map Prod.fst).Nodup ∧
      ∀ f ∈ fs, everyObject Fields.areDistinct f.2 = true) ⟨List.nodup_nil, by simp⟩ ?_
    rintro fs ⟨hnames, hfs⟩ m hm
    refine ⟨Fields.nodup_assign hnames m.1 m.2, fun f hf => ?_⟩
    rcases Fields.mem_assign hf with rfl | hold
    · exact hvalues m hm
    · exact hfs f hold
  simp only [hasDistinctNames, everyObject, Fields.areDistinct, Bool.and_eq_true,
    decide_eq_true_eq]
  exact ⟨hmembers.1, everyObjectOfFields_iff.2 hmembers.2⟩

end Value

namespace Node

mutual
theorem hasDistinctNames_of_toValue? : ∀ (node : Node) {room : Nat} {v : Value},
    node.toValue? room = some v → v.hasDistinctNames = true
  | .null, _, _, h => by simp only [toValue?] at h; cases h; rfl
  | .bool _, _, _, h => by simp only [toValue?] at h; cases h; rfl
  | .number _ _, _, _, h => by
    simp only [toValue?] at h
    obtain ⟨n, -, rfl⟩ := Option.map_eq_some_iff.1 h
    rfl
  | .string _, _, _, h => by
    simp only [toValue?] at h
    obtain ⟨s, -, rfl⟩ := Option.map_eq_some_iff.1 h
    rfl
  | .array _, 0, _, h => by simp only [toValue?] at h; cases h
  | .array items, room + 1, _, h => by
    simp only [toValue?] at h
    obtain ⟨xs, hxs, rfl⟩ := Option.map_eq_some_iff.1 h
    exact distinctItems_of_itemValues? items hxs
  | .object _, 0, _, h => by simp only [toValue?] at h; cases h
  | .object members, room + 1, _, h => by
    simp only [toValue?] at h
    obtain ⟨fs, hfs, rfl⟩ := Option.map_eq_some_iff.1 h
    exact Value.hasDistinctNames_ofMembers (distinctMembers_of_memberValues? members hfs)
theorem distinctItems_of_itemValues? : ∀ (items : List Node) {room : Nat} {xs : List Value},
    itemValues? room items = some xs → Value.everyObjectOfItems Fields.areDistinct xs = true
  | [], _, _, h => by simp only [itemValues?] at h; cases h; rfl
  | node :: items, room, _, h => by
    simp only [itemValues?, Option.bind_eq_bind, Option.bind_eq_some_iff, Option.some.injEq] at h
    obtain ⟨v, hv, vs, hvs, rfl⟩ := h
    have hfirst : v.hasDistinctNames = true := hasDistinctNames_of_toValue? node hv
    have hrest := distinctItems_of_itemValues? items hvs
    simp only [Value.everyObjectOfItems, Bool.and_eq_true]
    exact ⟨hfirst, hrest⟩
theorem distinctMembers_of_memberValues? : ∀ (members : List (Option String × Node)) {room : Nat}
    {fs : Fields}, memberValues? room members = some fs →
      Value.everyObjectOfFields Fields.areDistinct fs = true
  | [], _, _, h => by simp only [memberValues?] at h; cases h; rfl
  | (_, node) :: members, room, _, h => by
    simp only [memberValues?, Option.bind_eq_bind, Option.bind_eq_some_iff,
      Option.some.injEq] at h
    obtain ⟨k, -, v, hv, vs, hvs, rfl⟩ := h
    have hfirst : v.hasDistinctNames = true := hasDistinctNames_of_toValue? node hv
    have hrest := distinctMembers_of_memberValues? members hvs
    simp only [Value.everyObjectOfFields, Bool.and_eq_true]
    exact ⟨hfirst, hrest⟩
end

end Node

/-- No object that is read from a JSON text has two fields of one name. -/
theorem Value.hasDistinctNames_of_ofJson? {text : String} {v : Value} (h : ofJson? text = some v) :
    v.hasDistinctNames = true := by
  obtain ⟨node, -, hv⟩ := Option.bind_eq_some_iff.1 h
  exact Node.hasDistinctNames_of_toValue? node hv

end TypedDocs
