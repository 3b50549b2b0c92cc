import TypedDocs.Text.Parts

/-!
# The parts of a text that is put together

A text without the mark is one part. The parts of two texts with a mark between them are those of
the one and of the other, and no part holds the mark. Put together again they are the text.
-/

namespace TypedDocs

theorem partsAt_of_not_mem {mark : Char} {cs : List Char} (h : mark ∉ cs) :
    partsAt mark cs = [cs] := by
  induction cs with
  | nil => rfl
  | cons c rest ih =>
    simp only [List.mem_cons, not_or] at h
    rw [partsAt, if_neg (Ne.symm h.1), ih h.2]

theorem partsAt_append (mark : Char) (cs ds : List Char) :
    partsAt mark (cs ++ mark :: ds) = partsAt mark cs ++ partsAt mark ds := by
  induction cs with
  | nil => simp [partsAt]
  | cons c rest ih =>
    rw [List.cons_append, partsAt, partsAt, ih]
    split
    · rfl
    · cases h : partsAt mark rest with
      | nil => exact absurd h (partsAt_ne_nil mark rest)
      | cons part parts => rfl

theorem not_mem_of_mem_partsAt {mark : Char} {cs part : List Char} (h : part ∈ partsAt mark cs) :
    mark ∉ part := by
  induction cs generalizing part with
  | nil =>
    rw [partsAt, List.mem_singleton] at h
    simp [h]
  | cons c rest ih =>
    rw [partsAt] at h
    split at h
    · rcases List.mem_cons.1 h with rfl | h
      · simp
      · exact ih h
    · rename_i hc
      cases hrest : partsAt mark rest with
      | nil => exact absurd hrest (partsAt_ne_nil mark rest)
      | cons first parts =>
        have hfirst : mark ∉ first := ih (by rw [hrest]; exact List.mem_cons_self)
        rw [hrest] at h
        rcases List.mem_cons.1 h with rfl | h
        · simp only [List.mem_cons, not_or]
          exact ⟨Ne.symm hc, hfirst⟩
        · exact ih (by rw [hrest]; exact List.mem_cons_of_mem _ h)

theorem intercalate_partsAt (cs : List Char) :
    String.intercalate "." ((partsAt '.' cs).map String.ofList) = String.ofList cs := by
  induction cs with
  | nil => rfl
  | cons c rest ih =>
    cases hrest : partsAt '.' rest with
    | nil => exact absurd hrest (partsAt_ne_nil '.' rest)
    | cons part parts =>
      rw [hrest, List.map_cons] at ih
      rw [partsAt, hrest]
      split
      · rename_i hc
        rw [List.map_cons, List.map_cons, String.intercalate_cons_cons, ih, hc,
          ← String.toList_inj]
        simp
      · have hcons : String.ofList (c :: part) = String.singleton c ++ String.ofList part := by
          rw [← String.toList_inj]
          simp
        rw [List.map_cons, hcons, String.intercalate_cons_append, ih, ← String.toList_inj]
        simp

end TypedDocs
