import TypedDocs.Proofs.Text.Parts
import TypedDocs.Schema.Resolve
import TypedDocs.Operator

/-!
# Following written names

Where no array is declared, a name is followed one step down, so a dotted key of names
resolves to the field it spells out if its proper prefixes are declared as objects.
Positional segments and names below arrays are not dealt with here.
-/

namespace TypedDocs

section Segments

theorem segmentsOf_of_undotted {key : String} (h : '.' ∉ key.toList) : segmentsOf key = [key] := by
  rw [segmentsOf, partsAt_of_not_mem h, List.map_singleton, String.ofList_toList]

theorem exists_segments (key : String) : ∃ s rest, segmentsOf key = s :: rest := by
  cases hparts : partsAt '.' key.toList with
  | nil => exact absurd hparts (partsAt_ne_nil '.' key.toList)
  | cons part parts =>
    exact ⟨String.ofList part, parts.map String.ofList, by rw [segmentsOf, hparts, List.map_cons]⟩

/-- A key is an operator if its first segment is, which must not be empty. -/
theorem isOperator_of_segments {key s : String} {rest : List String}
    (h : segmentsOf key = s :: rest) (hs : s ≠ "") : isOperator key = isOperator s := by
  unfold segmentsOf at h
  cases hcs : key.toList with
  | nil =>
    rw [hcs] at h
    simp only [partsAt, List.map_cons, List.cons.injEq] at h
    exact absurd h.1.symm hs
  | cons c cs =>
    rw [hcs, partsAt] at h
    split at h
    · simp only [List.map_cons, List.cons.injEq] at h
      exact absurd h.1.symm hs
    · have hhead : s.toList.head? = some c := by
        split at h
        · simp only [List.map_cons, List.cons.injEq] at h
          rw [← h.1]
          simp
        · simp only [List.map_cons, List.cons.injEq] at h
          rw [← h.1]
          simp
      simp only [isOperator, hcs, hhead, List.head?_cons]

theorem join_of_ne_empty {base s : String} (h : base ≠ "") : join base s = base ++ "." ++ s := by
  rw [join, if_neg (by simpa using h)]

theorem join_base_ne_empty {base s : String} (h : base ≠ "") : join base s ≠ "" := by
  simp [join_of_ne_empty h, h]

theorem foldl_join_below {base : String} {segments : List String} (h : base ≠ "") :
    segments.foldl join base = String.intercalate "." (base :: segments) := by
  induction segments generalizing base with
  | nil => simp
  | cons s rest ih =>
    rw [List.foldl_cons, ih (join_base_ne_empty h), join_of_ne_empty h,
      String.intercalate_cons_append, String.intercalate_cons_cons]

/-- Joining segments one by one from the root writes the dotted key. -/
theorem foldl_join {segments : List String} (h : ∀ s ∈ segments, s ≠ "") :
    segments.foldl join "" = String.intercalate "." segments := by
  cases segments with
  | nil => simp
  | cons s rest => exact foldl_join_below (h s List.mem_cons_self)

end Segments

namespace FieldPath

/-- The field at the end of a list of names. -/
def descend (p : FieldPath) (segments : List String) : FieldPath :=
  segments.foldl (fun q s => q.child (.key s)) p

theorem descend_cons {p : FieldPath} {s : String} {rest : List String} :
    p.descend (s :: rest) = (p.child (.key s)).descend rest := rfl

end FieldPath

namespace Index

variable {index : Index} {p : FieldPath}

/-- Below a base all proper prefixes of a list of names are declared as objects. -/
def ObjectsAlong (index : Index) (base : String) (segments : List String) : Prop :=
  ∀ ⦃before after : List String⦄, segments = before ++ after → before ≠ [] → after ≠ [] →
    index.lookup (before.foldl join base) = .object

theorem ObjectsAlong.head {base s : String} {rest : List String}
    (h : index.ObjectsAlong base (s :: rest)) (hrest : rest ≠ []) :
    index.lookup (join base s) = .object :=
  @h [s] rest rfl (by simp) hrest

theorem ObjectsAlong.tail {base s : String} {rest : List String}
    (h : index.ObjectsAlong base (s :: rest)) : index.ObjectsAlong (join base s) rest := by
  intro before after hsplit hbefore hafter
  exact @h (s :: before) after (by rw [hsplit]; rfl) (by simp) hafter

theorem contains_of_isArray {key : String} (h : (index.lookup key).isArray = true) :
    index.contains key = true := by
  rw [contains_iff]
  cases hl : index.lookup key <;> simp_all [Lookup.isArray, Lookup.isUndeclared]

theorem entersItems_iff : index.entersItems p = true ↔
    index.lookup p.schema = .array ∧ index.contains (join p.schema wildcard) = true := by
  rw [entersItems, Bool.and_eq_true]
  cases index.lookup p.schema <;> simp [Lookup.isArray]

theorem enterItems_of_enters (h : index.entersItems p = true) :
    index.enterItems p = index.enterItems p.implicitElement := by
  rw [enterItems, dif_pos h]

theorem enterItems_of_stays (h : index.entersItems p = false) : index.enterItems p = p := by
  rw [enterItems, dif_neg (by simp [h])]

theorem entersItems_congr {q : FieldPath} (h : p.schema = q.schema) :
    index.entersItems p = index.entersItems q := by
  rw [entersItems, entersItems, h]

theorem enterItems_of_no_array (h : (index.lookup p.schema).isArray = false) :
    index.enterItems p = p :=
  enterItems_of_stays (by simp [entersItems, h])

theorem followSegment_positional {s : String} (h : isPositional s = true) :
    index.followSegment p s = p.positional s := if_pos h

theorem followSegment_named {s : String} (h : isPositional s = false) :
    index.followSegment p s = (index.enterItems p).child (.key s) := if_neg (by simp [h])

theorem followSegment_name {segment : String} (hname : isPositional segment = false)
    (h : (index.lookup p.schema).isArray = false) :
    index.followSegment p segment = p.child (.key segment) := by
  rw [followSegment_named hname, enterItems_of_no_array h]

theorem foldl_followSegment {segments : List String}
    (hnames : ∀ s ∈ segments, isPositional s = false)
    (hp : (index.lookup p.schema).isArray = false) (h : index.ObjectsAlong p.schema segments) :
    segments.foldl index.followSegment p = p.descend segments := by
  induction segments generalizing p with
  | nil => rfl
  | cons s rest ih =>
    rw [List.foldl_cons, followSegment_name (hnames s List.mem_cons_self) hp,
      FieldPath.descend_cons]
    cases rest with
    | nil => rfl
    | cons t rest =>
      have hobject : index.lookup (p.child (.key s)).schema = .object := h.head (by simp)
      exact ih (fun r hr => hnames r (List.mem_cons_of_mem _ hr)) (by rw [hobject]; rfl) h.tail

theorem resolve_names {key : String} (hnames : ∀ s ∈ segmentsOf key, isPositional s = false)
    (hp : (index.lookup p.schema).isArray = false)
    (h : index.ObjectsAlong p.schema (segmentsOf key)) :
    index.resolve p key = p.descend (segmentsOf key) :=
  foldl_followSegment hnames hp h

theorem resolve_undotted {key : String} (h : '.' ∉ key.toList) :
    index.resolve p key = index.followSegment p key := by
  rw [resolve, segmentsOf_of_undotted h]
  rfl

theorem resolve_name {key : String} (hundotted : '.' ∉ key.toList)
    (hname : isPositional key = false) (h : (index.lookup p.schema).isArray = false) :
    index.resolve p key = p.child (.key key) := by
  rw [resolve_undotted hundotted, followSegment_name hname h]

end Index

end TypedDocs
