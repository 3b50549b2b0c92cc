import TypedDocs.Catalog.Basic
import TypedDocs.Proofs.Dictionary

/-!
# Directories in any order

A directory is loaded along its listing, and the order of that one is not the directory's.
Whether it loads, and which collections it has, does not depend on the order. Of two files with
one stem, such as one of JSON and one of YAML, only the one listed later is kept. So it is by
their stems that definitions get lost, and by what such files differ in that orders do.
-/

namespace TypedDocs

namespace Catalog

/-- The names and the texts of the definition files in a listing. -/
def definitionFiles (listing : List (String × FileEntry)) : List (String × String) :=
  listing.filterMap fun
    | (name, .file text) => if Definition.isDefinitionPath name then some (name, text) else none
    | (_, .directory) => none

/-- The collections of the definition files in a listing, in its order. -/
def rows (registry : Registry) (options : CompileOptions) (listing : List (String × FileEntry)) :
    List (String × Index) :=
  Dictionary.rowsOf (fun file => Files.stem file.1)
    (fun file => compileText registry options file.1 file.2) (definitionFiles listing)

/-- All definition files of a listing compile. -/
def AllCompile (registry : Registry) (options : CompileOptions)
    (listing : List (String × FileEntry)) : Prop :=
  ∀ file ∈ definitionFiles listing, ∃ index,
    compileText registry options file.1 file.2 = .ok index

section Listing

variable {registry : Registry} {options : CompileOptions}
  {listing other : List (String × FileEntry)} {indexes d : Dictionary Index}

/-- Only the definition files of a listing are taken in. -/
theorem foldlM_addEntry : listing.foldlM (addEntry registry options) d =
    (definitionFiles listing).foldlM (fun d file => do
      let index ← compileText registry options file.1 file.2
      .ok (d.insert (Files.stem file.1) index)) d := by
  induction listing generalizing d with
  | nil => rfl
  | cons entry rest ih =>
    rw [List.foldlM_cons]
    simp only [ih]
    rcases entry with ⟨name, text | _⟩
    · by_cases hname : Definition.isDefinitionPath name = true
      · have hfiles : definitionFiles ((name, .file text) :: rest) =
            (name, text) :: definitionFiles rest := by
          simp [definitionFiles, hname]
        rw [hfiles, List.foldlM_cons, addEntry, if_pos hname]
      · have hfiles : definitionFiles ((name, .file text) :: rest) = definitionFiles rest := by
          simp [definitionFiles, hname]
        rw [hfiles, addEntry, if_neg hname]
        rfl
    · rfl

theorem ofListing_eq_ok : ofListing registry options listing = .ok indexes ↔
    AllCompile registry options listing ∧
      indexes = Dictionary.ofList (rows registry options listing) := by
  rw [ofListing, foldlM_addEntry]
  exact Dictionary.foldlM_insert_eq_ok

theorem mem_definitionFiles_iff {file : String × String} : file ∈ definitionFiles listing ↔
    (file.1, FileEntry.file file.2) ∈ listing ∧ Definition.isDefinitionPath file.1 = true := by
  constructor
  · intro hfile
    obtain ⟨⟨name, entry⟩, hmem, hsome⟩ := List.mem_filterMap.1 hfile
    cases entry with
    | file text =>
      simp only [Option.ite_none_right_eq_some, Option.some.injEq] at hsome
      rw [← hsome.2]
      exact ⟨hmem, hsome.1⟩
    | directory => cases hsome
  · rintro ⟨hmem, hname⟩
    exact List.mem_filterMap.2 ⟨_, hmem, if_pos hname⟩

theorem definitionFiles_perm (h : listing.Perm other) :
    (definitionFiles listing).Perm (definitionFiles other) :=
  h.filterMap _

theorem AllCompile.perm (h : AllCompile registry options listing) (hperm : listing.Perm other) :
    AllCompile registry options other :=
  fun file hfile => h file ((definitionFiles_perm hperm).mem_iff.2 hfile)

/-- The rows of a listing are made of its files, none left out. -/
theorem AllCompile.map_fst_rows (h : AllCompile registry options listing) :
    (rows registry options listing).map Prod.fst =
      (definitionFiles listing).map fun file => Files.stem file.1 :=
  Dictionary.map_fst_rowsOf h

/-- Of the files with one stem the one listed last is kept. -/
theorem get?_ofList_rows_last {file : String × String} (hfile : file ∈ definitionFiles listing)
    {index : Index} (hindex : compileText registry options file.1 file.2 = .ok index) :
    ∃ other, listing.Perm other ∧
      (Dictionary.ofList (rows registry options other)).get? (Files.stem file.1) = some index := by
  have hentry := mem_definitionFiles_iff.1 hfile
  -- The listing with this file moved to its end.
  refine ⟨listing.erase (file.1, .file file.2) ++ [(file.1, .file file.2)],
    (List.perm_cons_erase hentry.1).trans (List.perm_append_singleton _ _).symm, ?_⟩
  have hlast : definitionFiles [(file.1, .file file.2)] = [file] := by
    simp [definitionFiles, hentry.2]
  have hrows : rows registry options
      (listing.erase (file.1, .file file.2) ++ [(file.1, .file file.2)]) =
        rows registry options (listing.erase (file.1, .file file.2)) ++
          [(Files.stem file.1, index)] := by
    have hsplit : definitionFiles
        (listing.erase (file.1, .file file.2) ++ [(file.1, .file file.2)]) =
          definitionFiles (listing.erase (file.1, .file file.2)) ++ [file] := by
      rw [← hlast]
      exact List.filterMap_append
    rw [rows, hsplit, Dictionary.rowsOf, List.filterMap_append,
      List.filterMap_cons_some (by rw [hindex]; rfl)]
    rfl
  rw [hrows, Dictionary.ofList, Dictionary.insertAll_append]
  exact Dictionary.get?_insert_self _ _ _

theorem AllCompile.mem_keys_iff (h : AllCompile registry options listing) {name : String} :
    name ∈ (Dictionary.ofList (rows registry options listing)).keys ↔
      ∃ file ∈ definitionFiles listing, Files.stem file.1 = name := by
  rw [Dictionary.mem_keys_ofList_iff, h.map_fst_rows, List.mem_map]

/-- The collections of a directory are the same in every order of its entries. -/
theorem AllCompile.keys_eq (h : AllCompile registry options listing) (hperm : listing.Perm other) :
    (Dictionary.ofList (rows registry options other)).keys =
      (Dictionary.ofList (rows registry options listing)).keys := by
  refine Dictionary.keys_eq_of_mem_iff fun name => ?_
  rw [(h.perm hperm).mem_keys_iff, h.mem_keys_iff]
  simp only [(definitionFiles_perm hperm).mem_iff]

/-- The index found for a collection is that of some file with its stem. -/
theorem exists_file_of_get? {name : String} {index : Index}
    (h : (Dictionary.ofList (rows registry options listing)).get? name = some index) :
    ∃ file ∈ definitionFiles listing, Files.stem file.1 = name ∧
      compileText registry options file.1 file.2 = .ok index := by
  rcases Dictionary.get?_insertAll_some h with hrow | hempty
  · exact Dictionary.mem_rowsOf_iff.1 hrow
  · cases hempty

/-- A listing that loads also loads in any other order, and to the same collections. The indexes
are the same in every order exactly if files with one stem have one index. There are as many
collections as definition files exactly if no two files have one stem. -/
theorem ofListing_perm (h : ofListing registry options listing = .ok indexes) :
    (∀ other, listing.Perm other → ∃ indexes',
      ofListing registry options other = .ok indexes' ∧ indexes'.keys = indexes.keys) ∧
    ((∀ other, listing.Perm other → ofListing registry options other = .ok indexes) ↔
      ∀ f ∈ definitionFiles listing, ∀ g ∈ definitionFiles listing,
        Files.stem f.1 = Files.stem g.1 →
          compileText registry options f.1 f.2 = compileText registry options g.1 g.2) ∧
    (indexes.size = (definitionFiles listing).length ↔
      ((definitionFiles listing).map fun file => Files.stem file.1).Nodup) ∧
    (∀ store path other, store.list path = .ok other → listing.Perm other → ∃ c,
      ofDirectory registry options store path = .ok c ∧ c.collections = indexes.keys) := by
  obtain ⟨hall, rfl⟩ := ofListing_eq_ok.1 h
  have hloads : ∀ other, listing.Perm other → ofListing registry options other =
      .ok (Dictionary.ofList (rows registry options other)) :=
    fun other hperm => ofListing_eq_ok.2 ⟨hall.perm hperm, rfl⟩
  refine ⟨fun other hperm => ⟨_, hloads other hperm, hall.keys_eq hperm⟩,
    ⟨fun hsame f hf g hg hstem => ?_, fun hsame other hperm => ?_⟩, ?_,
    fun store path other hlist hperm => ?_⟩
  · -- Either of the two files can be the one listed last.
    obtain ⟨i, hi⟩ := hall f hf
    obtain ⟨j, hj⟩ := hall g hg
    obtain ⟨lastF, hpermF, hgetF⟩ := get?_ofList_rows_last hf hi
    obtain ⟨lastG, hpermG, hgetG⟩ := get?_ofList_rows_last hg hj
    have hF := hsame lastF hpermF
    have hG := hsame lastG hpermG
    rw [hloads lastF hpermF, Except.ok.injEq] at hF
    rw [hloads lastG hpermG, Except.ok.injEq] at hG
    rw [hF, hstem] at hgetF
    rw [hG, hgetF] at hgetG
    rw [hi, hj, Option.some.inj hgetG]
  · rw [hloads other hperm, Except.ok.injEq]
    refine Dictionary.ext_get? fun name => ?_
    have hkeys : name ∈ (Dictionary.ofList (rows registry options other)).keys ↔
        name ∈ (Dictionary.ofList (rows registry options listing)).keys := by
      rw [hall.keys_eq hperm]
    rw [Dictionary.mem_keys_iff, Dictionary.mem_keys_iff] at hkeys
    cases hfound : (Dictionary.ofList (rows registry options other)).get? name with
    | none =>
      rw [hfound] at hkeys
      exact (Option.not_isSome_iff_eq_none.1 fun hsome => by cases hkeys.2 hsome).symm
    | some i =>
      rw [hfound] at hkeys
      obtain ⟨j, hj⟩ := Option.isSome_iff_exists.1 (hkeys.1 rfl)
      obtain ⟨f, hf, hstemF, hcompileF⟩ := exists_file_of_get? hfound
      obtain ⟨g, hg, hstemG, hcompileG⟩ := exists_file_of_get? hj
      have heq := hsame f ((definitionFiles_perm hperm).mem_iff.2 hf) g hg
        (hstemF.trans hstemG.symm)
      rw [hcompileF, hcompileG, Except.ok.injEq] at heq
      rw [hj, heq]
  · have hlength : (definitionFiles listing).length = (rows registry options listing).length := by
      have hmap := congrArg List.length hall.map_fst_rows
      rw [List.length_map, List.length_map] at hmap
      exact hmap.symm
    rw [hlength, Dictionary.size_ofList_iff, hall.map_fst_rows]
  · refine ⟨⟨Dictionary.ofList (rows registry options other), .directory path⟩, ?_,
      hall.keys_eq hperm⟩
    simp only [ofDirectory, hlist, hloads other hperm, bind, Except.bind]

/-- A definition file of JSON, and one of YAML with the same stem. -/
def nameFile : String × String := ("bands.json", "\x7b\"name\": \"String\"\x7d")
def bornFile : String × String := ("bands.yaml", "born: Number\n")

/-- A directory with two definitions of the bands, which are not alike. -/
def bandsTwice : List (String × FileEntry) :=
  [("README.md", .file "Bands"), (nameFile.1, .file nameFile.2), (bornFile.1, .file bornFile.2),
    ("old", .directory)]

/-- The directory loads, of its two definitions there is one, and which one that is depends on the
order. -/
theorem ofListing_perm_bands : ∃ indexes,
    ofListing Registry.builtin {} bandsTwice = .ok indexes ∧
      (definitionFiles bandsTwice).length = 2 ∧ indexes.size ≠ 2 ∧
      ¬ ∀ other, bandsTwice.Perm other → ofListing Registry.builtin {} other = .ok indexes := by
  have hsome : (ofListing Registry.builtin {} bandsTwice).toOption.isSome = true := by
    decide +kernel
  cases hload : ofListing Registry.builtin {} bandsTwice with
  | error e =>
    rw [hload] at hsome
    cases hsome
  | ok indexes =>
    obtain ⟨-, horders, hsize, -⟩ := ofListing_perm hload
    have hlength : (definitionFiles bandsTwice).length = 2 := by decide +kernel
    refine ⟨indexes, rfl, hlength, fun htwo => ?_, fun hsame => ?_⟩
    · have hnodup := hsize.1 (htwo.trans hlength.symm)
      exact absurd hnodup (by decide +kernel)
    · have heq := horders.1 hsame nameFile (by decide +kernel) bornFile (by decide +kernel)
        (by decide +kernel)
      have hnames := congrArg (fun r => r.toOption.map fun i => Index.contains i "name") heq
      exact absurd hnames (by decide +kernel)

end Listing

end Catalog

end TypedDocs
