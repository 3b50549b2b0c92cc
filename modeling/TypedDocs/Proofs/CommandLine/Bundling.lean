import TypedDocs.CommandLine.Run
import TypedDocs.Proofs.Catalog.SavedBundle
import TypedDocs.Proofs.Files.Written

/-!
# What a bundle made of files is loaded as

A bundle is made of definition files that can be read and compile and whose names have different
stems, all of them text. Loading it gives the collections of these files, each as its own file
gives it. But a definition stands two containers deeper in a bundle than in its file, and one that
only its file has room for makes a bundle that cannot be loaded.
-/

namespace TypedDocs

namespace Catalog

variable {registry : Registry} {options : CompileOptions} {store : FileStore} {path : String}

theorem compile_eq_ok {collection : String} {definition : Value} {index : Index} :
    compile registry options collection definition = .ok index ↔
      Definition.compile registry options definition = .ok index := by
  unfold compile
  cases Definition.compile registry options definition <;> simp

/-- A file loads if its definition can be read and compiles, as the collection of its stem. -/
theorem ofFile_eq_ok {c : Catalog} : ofFile registry options store path = .ok c ↔
    ∃ definition index, Definition.read store path = .ok definition ∧
      Definition.compile registry options definition = .ok index ∧
      c = ⟨Dictionary.empty.insert (Files.stem path) index, .file path⟩ := by
  unfold ofFile
  cases hread : Definition.read store path with
  | error e => simp [bind, Except.bind]
  | ok definition =>
    simp only [bind, Except.bind]
    cases hcompile : compile registry options (Files.stem path) definition with
    | error e =>
      simp only [reduceCtorEq, false_iff, not_exists, not_and]
      rintro _ index ⟨⟩ hindex
      rw [compile_eq_ok.2 hindex] at hcompile
      cases hcompile
    | ok index =>
      simp only [Except.ok.injEq]
      constructor
      · rintro rfl
        exact ⟨definition, index, rfl, compile_eq_ok.1 hcompile, rfl⟩
      · rintro ⟨_, index', rfl, hindex, rfl⟩
        rw [compile_eq_ok.2 hindex] at hcompile
        cases hcompile
        rfl

theorem ofDefinitions_eq_ok {definitions : Dictionary Value} {indexes : Dictionary Index} :
    ofDefinitions registry options definitions = .ok indexes ↔
      (∀ d ∈ definitions.bindings, ∃ index, compile registry options d.1 d.2 = .ok index) ∧
        indexes = Dictionary.ofList (Dictionary.rowsOf Prod.fst
          (fun d => compile registry options d.1 d.2) definitions.bindings) :=
  Dictionary.foldlM_insert_eq_ok

end Catalog

namespace CommandLine

/-- A file that a bundle takes in: it can be read, and what it defines compiles. -/
def Accepted (store : FileStore) (path : String) : Prop :=
  ∃ definition index, Definition.read store path = .ok definition ∧
    Definition.compile .builtin {} definition = .ok index

/-- Files that can be told apart by their stems: each has one that is text, and no two have the
same. -/
structure HaveDistinctStems (paths : List String) : Prop where
  named : ∀ path ∈ paths, (Files.stem? path).isSome = true
  distinct : (paths.map Files.stem).Nodup

/-- The definitions of files by their stems. -/
def definitionRows (store : FileStore) (paths : List String) : List (String × Value) :=
  Dictionary.rowsOf Files.stem (Definition.read store) paths

variable {s : Setting} {store : FileStore} {b b' : Bundle} {paths inputs : List String}
  {path output : String} {name : Option String} {e : CommandError}

theorem definitionRows_cons {definition : Value} (h : Definition.read store path = .ok definition) :
    definitionRows store (path :: paths) =
      (Files.stem path, definition) :: definitionRows store paths :=
  Dictionary.rowsOf_cons h

theorem map_fst_definitionRows (h : ∀ path ∈ paths, Accepted store path) :
    (definitionRows store paths).map Prod.fst = paths.map Files.stem :=
  Dictionary.map_fst_rowsOf fun path hpath => by
    obtain ⟨definition, index, hread, -⟩ := h path hpath
    exact ⟨definition, hread⟩

theorem definitionPaths_of_file (h : store.isDirectory path = false) :
    definitionPaths store path = [path] := by
  unfold FileStore.isDirectory at h
  unfold definitionPaths FileStore.list
  cases hlook : store.look path with
  | error e => rfl
  | ok found =>
    obtain ⟨location, entry⟩ := found
    cases entry with
    | file text => rfl
    | directory => rw [hlook] at h; cases h

theorem flatMap_definitionPaths (h : ∀ path ∈ inputs, store.isDirectory path = false) :
    inputs.flatMap (definitionPaths store) = inputs := by
  induction inputs with
  | nil => rfl
  | cons path rest ih =>
    rw [List.flatMap_cons, definitionPaths_of_file (h path List.mem_cons_self),
      ih fun p hp => h p (List.mem_cons_of_mem _ hp)]
    rfl

theorem haveDistinctStems_cons : HaveDistinctStems (path :: paths) ↔
    (Files.stem? path).isSome = true ∧ (∀ p ∈ paths, Files.stem path ≠ Files.stem p) ∧
      HaveDistinctStems paths := by
  have hnew : Files.stem path ∉ paths.map Files.stem ↔
      ∀ p ∈ paths, Files.stem path ≠ Files.stem p := by
    simp [eq_comm]
  constructor
  · rintro ⟨hnamed, hdistinct⟩
    rw [List.map_cons, List.nodup_cons, hnew] at hdistinct
    obtain ⟨hfirst, hrest⟩ := List.forall_mem_cons.1 hnamed
    exact ⟨hfirst, hdistinct.1, hrest, hdistinct.2⟩
  · rintro ⟨hfirst, hothers, hrest⟩
    refine ⟨List.forall_mem_cons.2 ⟨hfirst, hrest.named⟩, ?_⟩
    rw [List.map_cons, List.nodup_cons, hnew]
    exact ⟨hothers, hrest.distinct⟩

theorem addDefinition_eq_ok : addDefinition store b path = .ok b' ↔
    ∃ definition index, Definition.read store path = .ok definition ∧
      Definition.compile .builtin {} definition = .ok index ∧
      (Files.stem? path).isSome = true ∧
      b.collections.contains (Files.stem path) = false ∧
      b' = b.insert (Files.stem path) definition := by
  unfold addDefinition
  cases hread : Definition.read store path with
  | error e => simp [Except.mapError, bind, Except.bind]
  | ok definition =>
    cases hcompile : Definition.compile .builtin {} definition with
    | error e => simp [Except.mapError, bind, Except.bind, hcompile]
    | ok index =>
      cases hstem : Files.stem? path with
      | none => simp [Except.mapError, bind, Except.bind, hcompile]
      | some collection =>
        have hcollection : Files.stem path = collection := by rw [Files.stem, hstem]; rfl
        simp only [Except.mapError, bind, Except.bind, hcompile, hcollection]
        split
        · rename_i hcontains
          simp [hcontains]
        · rename_i hcontains
          simp only [Except.ok.injEq]
          constructor
          · rintro rfl
            exact ⟨definition, index, rfl, hcompile, rfl, by simpa using hcontains, rfl⟩
          · rintro ⟨_, _, rfl, -, -, -, rfl⟩
            rfl

theorem contains_insert_eq_false {α : Type} {d : Dictionary α} {key other : String} {value : α} :
    (d.insert key value).contains other = false ↔ key ≠ other ∧ d.contains other = false := by
  rw [Dictionary.contains, Dictionary.get?_insert]
  split
  · rename_i heq
    simp [heq]
  · rename_i hne
    simp [hne, Dictionary.contains]

/-- Files are taken in one after the other, as long as each has a stem and none comes twice. -/
theorem foldlM_addDefinition_eq_ok (hhash : b.hash = none) :
    paths.foldlM (addDefinition store) b = .ok b' ↔
      (∀ path ∈ paths, Accepted store path) ∧ HaveDistinctStems paths ∧
        (∀ path ∈ paths, b.collections.contains (Files.stem path) = false) ∧
        b' = { b with collections := b.collections.insertAll (definitionRows store paths) } := by
  induction paths generalizing b with
  | nil =>
    have hrows : b.collections.insertAll (definitionRows store []) = b.collections := rfl
    have hstems : HaveDistinctStems [] := ⟨nofun, List.nodup_nil⟩
    simp only [List.foldlM_nil, pure, Except.pure, Except.ok.injEq, hrows, List.not_mem_nil,
      false_implies, implies_true, hstems, true_and]
    exact eq_comm
  | cons path paths ih =>
    rw [List.foldlM_cons]
    constructor
    · intro h
      cases hadd : addDefinition store b path with
      | error e => rw [hadd] at h; cases h
      | ok b₁ =>
        rw [hadd] at h
        obtain ⟨definition, index, hread, hcompile, hnamed, hnew, rfl⟩ :=
          addDefinition_eq_ok.1 hadd
        obtain ⟨hall, hstems, hothers, rfl⟩ := (ih rfl).1 h
        have hothers' := fun p hp => contains_insert_eq_false.1 (hothers p hp)
        refine ⟨?_, ?_, ?_, ?_⟩
        · exact List.forall_mem_cons.2 ⟨⟨definition, index, hread, hcompile⟩, hall⟩
        · exact haveDistinctStems_cons.2 ⟨hnamed, fun p hp => (hothers' p hp).1, hstems⟩
        · exact List.forall_mem_cons.2 ⟨hnew, fun p hp => (hothers' p hp).2⟩
        · rw [definitionRows_cons hread, Bundle.insert, hhash]
          rfl
    · rintro ⟨hall, hstems, hothers, rfl⟩
      obtain ⟨⟨definition, index, hread, hcompile⟩, hall⟩ := List.forall_mem_cons.1 hall
      obtain ⟨hnew, hothers⟩ := List.forall_mem_cons.1 hothers
      obtain ⟨hnamed, hstem, hstems⟩ := haveDistinctStems_cons.1 hstems
      rw [addDefinition_eq_ok.2 ⟨definition, index, hread, hcompile, hnamed, hnew, rfl⟩]
      refine (ih rfl).2 ⟨hall, hstems, fun p hp => ?_, ?_⟩
      · exact contains_insert_eq_false.2 ⟨hstem p hp, hothers p hp⟩
      · rw [definitionRows_cons hread, Bundle.insert, hhash]
        rfl

/-- The bundle of the definitions in some files, with its hash. -/
def bundleOfFiles (s : Setting) (inputs : List String) (name : Option String) : Bundle :=
  let collections := Dictionary.ofList (definitionRows s.store inputs)
  Bundle.sealed { version := bundleVersion, generatedAt := s.now, name, collections }

/-- The definition files that inputs stand for, in their order. -/
def expanded (store : FileStore) (inputs : List String) : List String :=
  inputs.flatMap (definitionPaths store)

/-- A bundle is made exactly if each definition file is accepted and their stems tell them apart. -/
theorem bundleOf_eq_ok_iff : bundleOf s inputs name = .ok b ↔
    (∀ path ∈ expanded s.store inputs, Accepted s.store path) ∧
      HaveDistinctStems (expanded s.store inputs) ∧
        b = bundleOfFiles s (expanded s.store inputs) name := by
  have hpaths : inputs.flatMap (definitionPaths s.store) = expanded s.store inputs := rfl
  unfold bundleOf
  rw [hpaths]
  cases hfold : (expanded s.store inputs).foldlM (addDefinition s.store)
      { version := bundleVersion, generatedAt := s.now, name } with
  | error e =>
    simp only [hfold, bind, Except.bind, reduceCtorEq, false_iff, not_and]
    intro hall hstems _
    rw [(foldlM_addDefinition_eq_ok rfl).2 ⟨hall, hstems, fun _ _ => rfl, rfl⟩] at hfold
    cases hfold
  | ok b' =>
    obtain ⟨hall, hstems, -, rfl⟩ := (foldlM_addDefinition_eq_ok rfl).1 hfold
    simp only [hfold, bind, Except.bind, Except.ok.injEq]
    constructor
    · rintro rfl
      exact ⟨hall, hstems, rfl⟩
    · rintro ⟨-, -, rfl⟩
      rfl

/-- Inputs without a directory among them are definition files themselves. -/
theorem bundleOf_eq_ok (hfiles : ∀ path ∈ inputs, s.store.isDirectory path = false) :
    bundleOf s inputs name = .ok b ↔
      (∀ path ∈ inputs, Accepted s.store path) ∧ HaveDistinctStems inputs ∧
        b = bundleOfFiles s inputs name := by
  rw [bundleOf_eq_ok_iff, expanded, flatMap_definitionPaths hfiles]

/-- The definitions of a bundle are those of its files. -/
theorem mem_bindings_iff (hall : ∀ path ∈ inputs, Accepted store path)
    (hnodup : (inputs.map Files.stem).Nodup) {d : String × Value} :
    d ∈ (Dictionary.ofList (definitionRows store inputs)).bindings ↔
      ∃ path ∈ inputs, Files.stem path = d.1 ∧ Definition.read store path = .ok d.2 := by
  have hnames : ((definitionRows store inputs).map Prod.fst).Nodup := by
    rwa [map_fst_definitionRows hall]
  have hget : d ∈ (Dictionary.ofList (definitionRows store inputs)).bindings ↔
      d ∈ definitionRows store inputs :=
    Dictionary.get?_eq_some_iff.symm.trans (Dictionary.get?_ofList_eq_some_iff hnames)
  exact hget.trans Dictionary.mem_rowsOf_iff

/-- Paths of files, none of which is read as YAML. -/
def JsonFiles (store : FileStore) (paths : List String) : Prop :=
  ∀ path ∈ paths, store.isDirectory path = false ∧ Definition.isYaml path = false

/-- The doubles in the definitions of some files are read back from the text they are written
as. -/
def DoublesReadBack (store : FileStore) (paths : List String) : Prop :=
  ∀ path ∈ paths, ∀ definition, Definition.read store path = .ok definition →
    definition.doublesReadBack = true

/-- A bundle has room for the definitions in some files. -/
def RoomInBundle (store : FileStore) (paths : List String) : Prop :=
  ∀ path ∈ paths, ∀ definition, Definition.read store path = .ok definition →
    definition.depth ≤ Bundle.definitionRoom

theorem accepted_iff : Accepted store path ↔
    ∃ c, Catalog.ofFile .builtin {} store path = .ok c := by
  simp only [Catalog.ofFile_eq_ok]
  constructor
  · rintro ⟨definition, index, hread, hcompile⟩
    exact ⟨_, definition, index, hread, hcompile, rfl⟩
  · rintro ⟨_, definition, index, hread, hcompile, -⟩
    exact ⟨definition, index, hread, hcompile⟩

/-- A definition read from JSON uses no name twice in one object. -/
theorem distinct_of_read {definition : Value} (hyaml : Definition.isYaml path = false)
    (h : Definition.read store path = .ok definition) : definition.hasDistinctNames = true := by
  unfold Definition.read at h
  split at h
  · cases h
  · cases h
  · rename_i text _
    rw [Definition.parse, hyaml] at h
    split at h
    · rename_i v hv
      cases h
      exact Value.hasDistinctNames_of_ofJson? hv
    · cases h

/-- A bundle command that succeeds has saved its bundle where it was told to. -/
theorem save_of_exit (h : (runBundle s inputs output name).exit = 0) : ∃ b before,
    bundleOf s inputs name = .ok b ∧
      b.save before output = .ok (runBundle s inputs output name).store := by
  unfold runBundle writeBundle at h ⊢
  cases hbundle : bundleOf s inputs name with
  | error e => rw [hbundle] at h; cases h
  | ok b =>
    rw [hbundle] at h
    simp only at h ⊢
    cases hprepare : prepareOutput s.store output with
    | error e => rw [hprepare] at h; cases h
    | ok before =>
      rw [hprepare] at h
      simp only at h ⊢
      cases hsave : b.save before output with
      | error e => rw [hsave] at h; cases h
      | ok after => exact ⟨b, before, rfl, hsave⟩

section Loading

variable (hfiles : JsonFiles s.store inputs) (hdoubles : DoublesReadBack s.store inputs)
  (hall : ∀ path ∈ inputs, Accepted s.store path) (hnodup : (inputs.map Files.stem).Nodup)
include hall hnodup

include hfiles hdoubles in
theorem readable_bundleOfFiles (name : Option String) : (bundleOfFiles s inputs name).Readable := by
  intro d hd
  obtain ⟨path, hpath, -, hread⟩ := (mem_bindings_iff hall hnodup).1 hd
  exact ⟨hdoubles path hpath d.2 hread, distinct_of_read (hfiles path hpath).2 hread⟩

theorem depth_bundleOfFiles (name : Option String) :
    Value.membersDepth (bundleOfFiles s inputs name).collections.bindings ≤
      Bundle.definitionRoom ↔ RoomInBundle s.store inputs := by
  rw [Bundle.membersDepth_le_iff]
  constructor
  · intro hroom path hpath definition hread
    exact hroom (Files.stem path, definition)
      ((mem_bindings_iff hall hnodup).2 ⟨path, hpath, rfl, hread⟩)
  · intro hroom d hd
    obtain ⟨path, hpath, -, hread⟩ := (mem_bindings_iff hall hnodup).1 hd
    exact hroom path hpath d.2 hread

/-- The collections of the bundle of some files are those that the files have on their own. -/
theorem ofDefinitions_bundleOfFiles (name : Option String) : ∃ indexes,
    Catalog.ofDefinitions .builtin {} (bundleOfFiles s inputs name).collections = .ok indexes ∧
      indexes.keys.Perm (inputs.map Files.stem) ∧
      ∀ path ∈ inputs, ∃ alone index, Catalog.ofFile .builtin {} s.store path = .ok alone ∧
        alone.get? (Files.stem path) = some index ∧
        indexes.get? (Files.stem path) = some index := by
  have hcompile : ∀ d ∈ (bundleOfFiles s inputs name).collections.bindings, ∃ index,
      Catalog.compile .builtin {} d.1 d.2 = .ok index := by
    intro d hd
    obtain ⟨path, hpath, -, hread⟩ := (mem_bindings_iff hall hnodup).1 hd
    obtain ⟨definition, index, hread', hindex⟩ := hall path hpath
    rw [hread, Except.ok.injEq] at hread'
    exact ⟨index, Catalog.compile_eq_ok.2 (hread' ▸ hindex)⟩
  have hrows : (Dictionary.rowsOf Prod.fst (fun d => Catalog.compile .builtin {} d.1 d.2)
      (bundleOfFiles s inputs name).collections.bindings).map Prod.fst =
        (bundleOfFiles s inputs name).collections.bindings.map Prod.fst :=
    Dictionary.map_fst_rowsOf hcompile
  have hkeys : (bundleOfFiles s inputs name).collections.keys.Perm (inputs.map Files.stem) := by
    rw [← map_fst_definitionRows hall] at hnodup ⊢
    exact Dictionary.keys_ofList_perm_iff.2 hnodup
  have hnames := (bundleOfFiles s inputs name).collections.nodup_keys
  refine ⟨_, Catalog.ofDefinitions_eq_ok.2 ⟨hcompile, rfl⟩, ?_, fun path hpath => ?_⟩
  · refine List.Perm.trans ?_ hkeys
    rw [Dictionary.keys, ← hrows] at hnames
    have hperm := Dictionary.keys_ofList_perm_iff.2 hnames
    rwa [hrows] at hperm
  · obtain ⟨definition, index, hread, hindex⟩ := hall path hpath
    refine ⟨_, index, Catalog.ofFile_eq_ok.2 ⟨definition, index, hread, hindex, rfl⟩,
      Dictionary.get?_insert_self _ _ _, ?_⟩
    rw [Dictionary.keys, ← hrows] at hnames
    refine (Dictionary.get?_ofList_eq_some_iff hnames).2 (Dictionary.mem_rowsOf_iff.2 ?_)
    exact ⟨(Files.stem path, definition),
      (mem_bindings_iff hall hnodup).2 ⟨path, hpath, rfl, hread⟩, rfl,
      Catalog.compile_eq_ok.2 hindex⟩

end Loading

/-- A bundle that has been written loads if it has room for its definitions. If not, its text is
refused. -/
theorem ofBundle_of_exit (hfiles : JsonFiles s.store inputs)
    (hdoubles : DoublesReadBack s.store inputs)
    (hexit : (runBundle s inputs output name).exit = 0) :
    ∃ indexes : Dictionary Index, indexes.keys.Perm (inputs.map Files.stem) ∧
      (∀ path ∈ inputs, ∃ alone index, Catalog.ofFile .builtin {} s.store path = .ok alone ∧
        alone.get? (Files.stem path) = some index ∧ indexes.get? (Files.stem path) = some index) ∧
      (RoomInBundle s.store inputs →
        Catalog.ofBundle .builtin {} (runBundle s inputs output name).store output =
          .ok ⟨indexes, .bundle output⟩) ∧
      (¬ RoomInBundle s.store inputs →
        Catalog.ofBundle .builtin {} (runBundle s inputs output name).store output =
          .error .json) := by
  obtain ⟨b, before, hbundle, hsave⟩ := save_of_exit hexit
  obtain ⟨hall, hstems, rfl⟩ := (bundleOf_eq_ok fun p hp => (hfiles p hp).1).1 hbundle
  have hnodup := hstems.distinct
  obtain ⟨indexes, hindexes, hkeys, hsame⟩ := ofDefinitions_bundleOfFiles hall hnodup name
  have hread := FileStore.read_of_write hsave
  have hroom := depth_bundleOfFiles hall hnodup name
  have hparse := Bundle.parse?_pretty
    (readable_bundleOfFiles hfiles hdoubles hall hnodup name)
  have hverify : (bundleOfFiles s inputs name).verify = .ok () := Bundle.verify_sealed _
  refine ⟨indexes, hkeys, hsame, fun hfits => ?_, fun hfits => ?_⟩
  · rw [if_pos (hroom.2 hfits)] at hparse
    simp only [Catalog.ofBundle, Bundle.load, hread, hparse, hverify, hindexes, bind, Except.bind]
  · rw [if_neg fun hdepth => hfits (hroom.1 hdepth)] at hparse
    simp only [Catalog.ofBundle, Bundle.load, hread, hparse, bind, Except.bind]

/-- A bundle of JSON files is made exactly if each of them loads and they have distinct stems, and
nothing is written otherwise. A bundle that has been written loads exactly if it has room for the
definitions, and then has the collections of the files, as each file alone has them. -/
theorem runBundle_loads (hfiles : JsonFiles s.store inputs)
    (hdoubles : DoublesReadBack s.store inputs) (output : String) (name : Option String) :
    ((∃ b, bundleOf s inputs name = .ok b) ↔
      (∀ path ∈ inputs, ∃ c, Catalog.ofFile .builtin {} s.store path = .ok c) ∧
        HaveDistinctStems inputs) ∧
    (∀ e, bundleOf s inputs name = .error e →
      (runBundle s inputs output name).exit = 1 ∧
        (runBundle s inputs output name).store = s.store) ∧
    ((runBundle s inputs output name).exit = 0 →
      let loaded := Catalog.ofBundle .builtin {} (runBundle s inputs output name).store output
      ((∃ c, loaded = .ok c) ↔ RoomInBundle s.store inputs) ∧
      (∀ e, loaded = .error e → e = .json) ∧
      ∀ c, loaded = .ok c → c.collections.Perm (inputs.map Files.stem) ∧
        ∀ path ∈ inputs, ∃ alone index, Catalog.ofFile .builtin {} s.store path = .ok alone ∧
          alone.get? (Files.stem path) = some index ∧ c.get? (Files.stem path) = some index) := by
  refine ⟨?_, fun e he => ?_, fun hexit => ?_⟩
  · simp only [bundleOf_eq_ok fun p hp => (hfiles p hp).1, accepted_iff]
    exact ⟨fun ⟨_, hall, hstems, _⟩ => ⟨hall, hstems⟩,
      fun ⟨hall, hstems⟩ => ⟨_, hall, hstems, rfl⟩⟩
  · rw [runBundle, he]
    exact ⟨rfl, rfl⟩
  · intro loaded
    obtain ⟨indexes, hkeys, hsame, hloads, hrefused⟩ := ofBundle_of_exit hfiles hdoubles hexit
    by_cases hfits : RoomInBundle s.store inputs
    · have hloaded : loaded = .ok ⟨indexes, .bundle output⟩ := hloads hfits
      refine ⟨⟨fun _ => hfits, fun _ => ⟨_, hloaded⟩⟩, fun e he => ?_, fun c hc => ?_⟩
      · rw [hloaded] at he
        cases he
      · rw [hloaded] at hc
        cases hc
        exact ⟨hkeys, hsame⟩
    · have hloaded : loaded = .error .json := hrefused hfits
      refine ⟨⟨fun ⟨c, hc⟩ => ?_, fun hroom => absurd hroom hfits⟩, fun e he => ?_,
        fun c hc => ?_⟩
      · rw [hloaded] at hc
        cases hc
      · rw [hloaded] at he
        cases he
        rfl
      · rw [hloaded] at hc
        cases hc

/-- A definition that has been written to a file is read from it, if it is not nested too deep. -/
theorem read_pretty {v : Value} (hread : store.read path = .ok v.pretty)
    (hyaml : Definition.isYaml path = false) (hdoubles : v.doublesReadBack = true)
    (hdistinct : v.hasDistinctNames = true) (hdepth : v.depth ≤ maxNesting) :
    Definition.read store path = .ok v := by
  unfold Definition.read
  rw [hread]
  simp only [Definition.parse, hyaml, Bool.false_eq_true, if_false,
    Value.ofJson?_pretty hdoubles hdistinct, if_pos hdepth]

/-- A definition of which a part that is no type holds `n` arrays in each other. -/
def noted (n : Nat) : Value :=
  .object [("born", .string "Number"),
    ("$weight", .number (.double ⟨false, 6755399441055744, -52, by decide⟩)),
    ("$notes", Value.wrap n (.string "deep"))]

/-- The definition in a file of its own. -/
def notedFile (n : Nat) : Setting where
  store := { entries := Dictionary.empty.insert "bands.json" (.file (noted n).pretty) }

/-- The definition is written and read like any other. -/
def ReadsBack (n : Nat) : Prop :=
  (noted n).doublesReadBack = true ∧ (noted n).hasDistinctNames = true ∧
    (noted n).depth ≤ maxNesting ∧
    (Definition.compile .builtin {} (noted n)).toOption.isSome = true

instance (n : Nat) : Decidable (ReadsBack n) := inferInstanceAs (Decidable (_ ∧ _ ∧ _ ∧ _))

theorem haveDistinctStems_bands : HaveDistinctStems ["bands.json"] :=
  ⟨by decide +kernel, by decide +kernel⟩

section Noted

variable {n : Nat} (h : ReadsBack n)
include h

theorem read_notedFile : Definition.read (notedFile n).store "bands.json" = .ok (noted n) :=
  read_pretty rfl (by decide +kernel) h.1 h.2.1 h.2.2.1

theorem accepted_notedFile : ∀ path ∈ ["bands.json"], Accepted (notedFile n).store path := by
  intro path hpath
  rw [List.mem_singleton.1 hpath]
  cases hcompile : Definition.compile .builtin {} (noted n) with
  | error e =>
    have hsome := h.2.2.2
    rw [hcompile] at hsome
    cases hsome
  | ok index => exact ⟨_, index, read_notedFile h, hcompile⟩

theorem doublesReadBack_notedFile : DoublesReadBack (notedFile n).store ["bands.json"] := by
  intro path hpath definition hread
  rw [List.mem_singleton.1 hpath, read_notedFile h, Except.ok.injEq] at hread
  rw [← hread]
  exact h.1

theorem roomInBundle_notedFile :
    RoomInBundle (notedFile n).store ["bands.json"] ↔ (noted n).depth ≤ Bundle.definitionRoom := by
  constructor
  · intro hroom
    exact hroom _ (List.mem_singleton.2 rfl) _ (read_notedFile h)
  · intro hdepth path hpath definition hread
    rw [List.mem_singleton.1 hpath, read_notedFile h, Except.ok.injEq] at hread
    rw [← hread]
    exact hdepth

theorem exit_notedFile : (runBundle (notedFile n) ["bands.json"] "all.json" none).exit = 0 := by
  have hfiles : ∀ path ∈ ["bands.json"], (notedFile n).store.isDirectory path = false := by
    intro path hpath
    rw [List.mem_singleton.1 hpath]
    rfl
  have hbundle : bundleOf (notedFile n) ["bands.json"] none =
      .ok (bundleOfFiles (notedFile n) ["bands.json"] none) :=
    (bundleOf_eq_ok hfiles).2 ⟨accepted_notedFile h, haveDistinctStems_bands, rfl⟩
  rw [runBundle, hbundle]
  rfl

end Noted

theorem jsonFiles_notedFile (n : Nat) : JsonFiles (notedFile n).store ["bands.json"] := by
  intro path hpath
  rw [List.mem_singleton.1 hpath]
  exact ⟨rfl, by decide +kernel⟩

/-- In a bundle there is room for 124 arrays with the object around them. The file of a definition
has room for one more, and the bundle that is made of that one does not load. -/
theorem runBundle_loads_noted :
    (∃ c, Catalog.ofBundle .builtin {}
        (runBundle (notedFile 124) ["bands.json"] "all.json" none).store "all.json" = .ok c ∧
      c.collections.Perm ["bands"]) ∧
    (∃ c, Catalog.ofFile .builtin {} (notedFile 125).store "bands.json" = .ok c) ∧
    (runBundle (notedFile 125) ["bands.json"] "all.json" none).exit = 0 ∧
    ¬ ∃ c, Catalog.ofBundle .builtin {}
      (runBundle (notedFile 125) ["bands.json"] "all.json" none).store "all.json" = .ok c := by
  have hfits : ReadsBack 124 := by decide +kernel
  have hdeep : ReadsBack 125 := by decide +kernel
  obtain ⟨-, -, hloads⟩ := runBundle_loads (jsonFiles_notedFile 124)
    (doublesReadBack_notedFile hfits) "all.json" none
  obtain ⟨hroom, -, hcollections⟩ := hloads (exit_notedFile hfits)
  obtain ⟨hmade, -, hrefused⟩ := runBundle_loads (jsonFiles_notedFile 125)
    (doublesReadBack_notedFile hdeep) "all.json" none
  refine ⟨?_, ?_, exit_notedFile hdeep, fun hloaded => ?_⟩
  · obtain ⟨c, hc⟩ := hroom.2 ((roomInBundle_notedFile hfits).2 (by decide +kernel))
    have hstem : ["bands.json"].map Files.stem = ["bands"] := by decide +kernel
    exact ⟨c, hc, hstem ▸ (hcollections c hc).1⟩
  · have hbundle := hmade.1 ⟨_, (bundleOf_eq_ok fun p hp => (jsonFiles_notedFile 125 p hp).1).2
      ⟨accepted_notedFile hdeep, haveDistinctStems_bands, rfl⟩⟩
    exact hbundle.1 _ (List.mem_singleton.2 rfl)
  · have hdepth := (roomInBundle_notedFile hdeep).1 ((hrefused (exit_notedFile hdeep)).1.1 hloaded)
    exact absurd hdepth (by decide +kernel)

end CommandLine

end TypedDocs
