import Mathlib.Data.List.TakeWhile
import TypedDocs.Text.Blank

/-!
# What is left of a trimmed text

A text consists of blanks, a part that neither starts nor ends with a blank, and more blanks.
There is one such part, and trimming returns it.
-/

namespace TypedDocs

/-- All of a text but the blanks around it. -/
structure IsTrimOf (body cs : List Char) : Prop where
  between : ∃ before after, cs = before ++ (body ++ after) ∧ (∀ c ∈ before, isBlank c = true) ∧
    ∀ c ∈ after, isBlank c = true
  starts : ∀ c ∈ body.head?, isBlank c = false
  ends : ∀ c ∈ body.getLast?, isBlank c = false

variable {cs body rest blanks : List Char}

theorem trimStart_split (cs : List Char) :
    ∃ blanks, cs = blanks ++ trimStart cs ∧ ∀ c ∈ blanks, isBlank c = true :=
  ⟨cs.takeWhile isBlank, List.takeWhile_append_dropWhile.symm, fun _ => List.mem_takeWhile_imp⟩

theorem not_blank_of_head_trimStart (cs : List Char) :
    ∀ c ∈ (trimStart cs).head?, isBlank c = false := by
  intro c hc
  have hhead := List.head?_dropWhile_not isBlank cs
  rw [trimStart] at hc
  rw [Option.mem_def.1 hc] at hhead
  simpa using hhead

theorem trimStart_of_not_blank (h : ∀ c ∈ cs.head?, isBlank c = false) : trimStart cs = cs := by
  cases cs with
  | nil => rfl
  | cons c rest => simp [trimStart, h c rfl]

theorem trimStart_blanks (h : ∀ c ∈ blanks, isBlank c = true) :
    trimStart (blanks ++ rest) = trimStart rest := List.dropWhile_append_of_pos h

theorem isTrimOf_trim (cs : List Char) : IsTrimOf (trim cs) cs := by
  obtain ⟨before, hbefore, hblank⟩ := trimStart_split cs
  obtain ⟨after, hafter, hblank'⟩ := trimStart_split (trimStart cs).reverse
  have hbody : trimStart cs = trim cs ++ after.reverse := by
    rw [trim, ← List.reverse_append, ← hafter, List.reverse_reverse]
  refine ⟨⟨before, after.reverse, by rw [← hbody, ← hbefore], hblank, ?_⟩, ?_, ?_⟩
  · exact fun c hc => hblank' c (List.mem_reverse.1 hc)
  · intro c hc
    refine not_blank_of_head_trimStart cs c ?_
    rw [hbody, List.head?_append, Option.mem_def.1 hc]
    rfl
  · rw [trim, List.getLast?_reverse]
    exact not_blank_of_head_trimStart _

/-- The part between the blanks is what trimming returns. -/
theorem IsTrimOf.eq_trim (h : IsTrimOf body cs) : body = trim cs := by
  obtain ⟨before, after, rfl, hbefore, hafter⟩ := h.between
  have hreverse : ∀ c ∈ after.reverse, isBlank c = true :=
    fun c hc => hafter c (List.mem_reverse.1 hc)
  have hlast : trimStart body.reverse = body.reverse :=
    trimStart_of_not_blank (by rw [List.head?_reverse]; exact h.ends)
  rw [trim, trimStart_blanks hbefore]
  cases body with
  | nil =>
    -- Nothing but blanks: the first pass takes them all.
    have hnone : trimStart ([] ++ after) = [] := by
      rw [List.nil_append, ← List.append_nil after, trimStart_blanks hafter]
      rfl
    rw [hnone]
    rfl
  | cons c body =>
    have hfirst : trimStart (c :: body ++ after) = c :: body ++ after :=
      trimStart_of_not_blank fun d hd => h.starts d hd
    rw [hfirst, List.reverse_append, trimStart_blanks hreverse, hlast, List.reverse_reverse]

theorem isTrimOf_iff : IsTrimOf body cs ↔ body = trim cs := by
  constructor
  · exact IsTrimOf.eq_trim
  · rintro rfl
    exact isTrimOf_trim cs

end TypedDocs
