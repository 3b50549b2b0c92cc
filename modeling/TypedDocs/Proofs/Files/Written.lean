import TypedDocs.Files.Store

/-!
# Reading what has been written

A file that has been written is found under the path it was written to. Writing puts one entry
where no directory is, so all the directories on the way are still there.
-/

namespace TypedDocs

namespace FileStore

variable {store store' : FileStore} {location path text : String} {entry : FileEntry}

theorem entry?_put (hlocation : store.entry? location ≠ some .directory) :
    FileStore.entry? (store.put location entry) location = some entry := by
  have hne : location.isEmpty = false := by
    cases hempty : location.isEmpty with
    | false => rfl
    | true => exact absurd (by rw [ entry?, hempty]; rfl) hlocation
  rw [ entry?, hne, if_neg (by simp), put, Dictionary.get?_insert_self]

/-- A directory is still one after something has been put where none is. -/
theorem entry?_put_of_directory (hlocation : store.entry? location ≠ some .directory)
    {other : String} (hother : store.entry? other = some .directory) :
    FileStore.entry? (store.put location entry) other = some .directory := by
  have hne : location ≠ other := by
    rintro rfl
    exact hlocation hother
  unfold entry? at hother ⊢
  split at hother
  · rename_i hempty
    rw [if_pos hempty]
  · rename_i hempty
    rw [if_neg hempty, put, Dictionary.get?_insert, if_neg hne]
    exact hother

theorem follow_put (hlocation : store.entry? location ≠ some .directory) {base name next : String}
    (h : store.follow base name = .ok next) :
    (store.put location entry).follow base name = .ok next := by
  unfold follow at h ⊢
  cases hbase : store.entry? base with
  | none => rw [hbase] at h; cases h
  | some found =>
    cases found with
    | file text => rw [hbase] at h; cases h
    | directory =>
      rw [hbase] at h
      rw [entry?_put_of_directory hlocation hbase]
      exact h

theorem foldlM_follow_put (hlocation : store.entry? location ≠ some .directory)
    {names : List String} {base next : String} (h : names.foldlM store.follow base = .ok next) :
    names.foldlM (store.put location entry).follow base = .ok next := by
  induction names generalizing base with
  | nil => exact h
  | cons name names ih =>
    rw [List.foldlM_cons] at h ⊢
    cases hstep : store.follow base name with
    | error e => rw [hstep] at h; cases h
    | ok below =>
      rw [hstep] at h
      rw [follow_put hlocation hstep]
      exact ih h

theorem locate_put (hlocation : store.entry? location ≠ some .directory)
    (h : store.locate path = .ok next) : (store.put location entry).locate path = .ok next := by
  unfold locate at h ⊢
  split at h
  · cases h
  · rename_i hempty
    rw [if_neg hempty]
    exact foldlM_follow_put hlocation h

theorem namesOf_ne_nil (path : String) : Files.namesOf path ≠ [] := by
  simp [Files.namesOf, partsAt_ne_nil]

/-- A path that ends in a slash is that of no file. -/
theorem write_slash {before : List String} (h : (Files.namesOf path).reverse = "" :: before) :
    ∃ e, store.write path text = .error e := by
  cases hwrite : store.write path text with
  | error e => exact ⟨e, rfl⟩
  | ok store' =>
    unfold write at hwrite
    rw [h] at hwrite
    simp only [List.head?_cons, if_true, bind, Except.bind] at hwrite
    split at hwrite
    · cases hwrite
    · split at hwrite
      · cases hwrite
      · split at hwrite
        · cases hwrite
        · split at hwrite <;> cases hwrite

/-- Any other path is followed as for reading, and its text put where that leads. -/
theorem write_named {before : List String} {name : String}
    (h : (Files.namesOf path).reverse = name :: before) (hname : name ≠ "") :
    store.write path text = (store.locate path).bind fun location =>
      if store.entry? location = some .directory then .error .isDirectory
      else .ok (store.put location (.file text)) := by
  have hnames : Files.namesOf path = before.reverse ++ [name] := by
    rw [← List.reverse_reverse (Files.namesOf path), h, List.reverse_cons]
  unfold write locate
  by_cases hempty : path.isEmpty = true
  · rw [if_pos hempty, if_pos hempty]
    rfl
  · have htrimmed : (name :: before).dropWhile (·.isEmpty) = name :: before :=
      List.dropWhile_cons_of_neg (by simpa using hname)
    rw [if_neg hempty, if_neg hempty, h, hnames, List.foldlM_append]
    simp only [htrimmed, List.head?_cons, Option.some.injEq, hname, if_false, bind, Except.bind]
    cases before.reverse.foldlM store.follow (store.start path) with
    | error e => rfl
    | ok directory =>
      simp only [List.foldlM_cons, List.foldlM_nil, bind, Except.bind, pure, Except.pure]
      cases store.follow directory name with
      | error e => rfl
      | ok location =>
        cases hentry : store.entry? location with
        | none => simp [hentry]
        | some found => cases found <;> simp [hentry]

/-- Writing puts the text where the path leads, and no directory is there. -/
theorem put_of_write (h : store.write path text = .ok store') : ∃ location,
    store.locate path = .ok location ∧ store.entry? location ≠ some .directory ∧
      store' = store.put location (.file text) := by
  cases hnames : (Files.namesOf path).reverse with
  | nil => exact absurd (List.reverse_eq_nil_iff.1 hnames) (namesOf_ne_nil path)
  | cons name before =>
    by_cases hname : name = ""
    · subst hname
      obtain ⟨e, he⟩ := write_slash hnames
      rw [he] at h
      cases h
    · rw [write_named hnames hname] at h
      cases hlocate : store.locate path with
      | error e => rw [hlocate] at h; cases h
      | ok location =>
        simp only [hlocate, Except.bind] at h
        split at h
        · cases h
        · rename_i hentry
          cases h
          exact ⟨location, rfl, hentry, rfl⟩

/-- What has been written to a path is read from it. -/
theorem read_of_write (h : store.write path text = .ok store') : store'.read path = .ok text := by
  obtain ⟨location, hlocate, hlocation, rfl⟩ := put_of_write h
  rw [read, look, locate_put hlocation hlocate]
  simp only [bind, Except.bind, entry?_put hlocation]

end FileStore

end TypedDocs
