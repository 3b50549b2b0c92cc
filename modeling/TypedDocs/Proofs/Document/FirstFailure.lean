import TypedDocs.Proofs.Document.Walk

/-!
# Walks that stop at the first failure

Two walkers that differ in their policy only do the same up to the first failure. So
the one that stops reports the head of what the other reports, and if nothing fails
their values are equal. The values are not compared where something fails.
-/

namespace TypedDocs

/-- A walk to the end against one that stops at the first failure. -/
structure StopsAtFirst {α : Type} (full first : Walked α) : Prop where
  failures : first.failures = full.failures.take 1
  value : full.failures = [] → first.value = full.value

namespace StopsAtFirst

variable {α β γ : Type} {full first : Walked α}

theorem of_short {r : Walked α} (h : r.failures.length ≤ 1) : StopsAtFirst r r where
  failures := (List.take_of_length_le h).symm
  value _ := rfl

theorem map (h : StopsAtFirst full first) (f : α → β) :
    StopsAtFirst (full.map f) (first.map f) where
  failures := h.failures
  value hclean := congrArg f (h.value hclean)

theorem first_clean (h : StopsAtFirst full first) (hclean : full.failures = []) :
    first.failures = [] := by
  rw [h.failures, hclean]
  rfl

/-- A walk that stops reports one failure at most. -/
theorem first_short (h : StopsAtFirst full first) : first.failures.length ≤ 1 := by
  rw [h.failures, List.length_take]
  omega

theorem only_failure (h : StopsAtFirst full first) {f : Failure} {rest : List Failure}
    (hfailures : first.failures = f :: rest) : rest = [] := by
  have hshort := h.first_short
  rw [hfailures, List.length_cons] at hshort
  exact List.length_eq_zero_iff.1 (by omega)

/-- Both walks end in the same value, or in the same error. -/
theorem toExcept (h : StopsAtFirst full first) : first.toExcept = full.toExcept := by
  cases hfull : full.failures with
  | nil =>
    rw [Walked.toExcept_of_clean hfull, Walked.toExcept_of_clean (h.first_clean hfull),
      h.value hfull]
  | cons failure rest =>
    have hfirst : first.failures = [failure] := by
      rw [h.failures, hfull]
      rfl
    rw [Walked.toExcept_of_failed hfull, Walked.toExcept_of_failed hfirst]

/-- Two walks one after the other, of which the second is left out if the first one stops. -/
theorem append {fullTail firstTail : Walked β} {r : Walked γ} {f : α → β → γ}
    (hhead : StopsAtFirst full first) (htail : StopsAtFirst fullTail firstTail)
    (hclean : first.failures = [] →
      r = ⟨f first.value firstTail.value, first.failures ++ firstTail.failures⟩)
    (hstopped : first.failures ≠ [] → r.failures = first.failures) :
    StopsAtFirst ⟨f full.value fullTail.value, full.failures ++ fullTail.failures⟩ r := by
  cases hfull : full.failures with
  | nil =>
    have hfirst := hhead.first_clean hfull
    rw [hclean hfirst, hfirst]
    refine ⟨htail.failures, fun hnone => ?_⟩
    simp only [hhead.value hfull, htail.value hnone]
  | cons failure rest =>
    have hfirst : first.failures = [failure] := by
      rw [hhead.failures, hfull]
      rfl
    refine ⟨?_, fun hnone => by cases hnone⟩
    rw [hstopped (by simp [hfirst]), hfirst]
    rfl

end StopsAtFirst

namespace Walker

/-- The same walker with another policy. -/
def under (w : Walker) (policy : ErrorPolicy) : Walker := { w with policy := policy }

section Heads

variable {w : Walker} {p : FieldPath} {v : Value}

theorem atom_short : (w.atom p v).failures.length ≤ 1 := by
  unfold atom leaf
  split
  · exact Nat.le_refl _
  · split
    · split
      · exact Nat.zero_le _
      · exact Nat.le_refl _
    · exact Nat.zero_le _
  · exact Nat.zero_le _

end Heads

section Lists

variable {w : Walker} {p : FieldPath} {i : Nat} {x : Value} {xs : List Value} {key : String}
  {fs : List (String × Value)}

theorem items_cons_first
    (hx : StopsAtFirst ((w.under .accumulate).field (p.child (.index i)) x)
      ((w.under .failFast).field (p.child (.index i)) x))
    (hxs : StopsAtFirst ((w.under .accumulate).items p (i + 1) xs)
      ((w.under .failFast).items p (i + 1) xs)) :
    StopsAtFirst ((w.under .accumulate).items p i (x :: xs))
      ((w.under .failFast).items p i (x :: xs)) := by
  rw [items_cons (stops_of_accumulate rfl)]
  refine hx.append hxs (fun hclean => ?_) fun hfailed => ?_
  · exact items_cons (by rw [hclean]; exact stops_nil)
  · rw [items_cons_stopped (stops_of_failFast rfl hfailed)]

theorem fields_cons_first (hkeep : w.index.keepsField p.schema key x = true)
    (hx : StopsAtFirst ((w.under .accumulate).field (p.child (.key key)) x)
      ((w.under .failFast).field (p.child (.key key)) x))
    (hfs : StopsAtFirst ((w.under .accumulate).fields p fs) ((w.under .failFast).fields p fs)) :
    StopsAtFirst ((w.under .accumulate).fields p ((key, x) :: fs))
      ((w.under .failFast).fields p ((key, x) :: fs)) := by
  have hkept : ∀ policy, (w.under policy).index.keepsField p.schema key x = true := fun _ => hkeep
  rw [fields_cons (hkept .accumulate) (stops_of_accumulate rfl)]
  refine hx.append (f := fun y gs => (key, y) :: gs) hfs (fun hclean => ?_) fun hfailed => ?_
  · exact fields_cons (hkept .failFast) (by rw [hclean]; exact stops_nil)
  · rw [fields_cons_stopped (hkept .failFast) (stops_of_failFast rfl hfailed)]

end Lists

/-- What two policies of one walker do at a location. -/
abbrev FieldFirst (w : Walker) (p : FieldPath) (v : Value) : Prop :=
  StopsAtFirst ((w.under .accumulate).field p v) ((w.under .failFast).field p v)

/-- The policies agree up to the first failure of a walk. -/
theorem stopsAtFirst (w : Walker) :
    Cases w.index (fun v p => FieldFirst w p v)
      (fun xs p i => StopsAtFirst ((w.under .accumulate).items p i xs)
        ((w.under .failFast).items p i xs))
      (fun fs p => StopsAtFirst ((w.under .accumulate).fields p fs)
        ((w.under .failFast).fields p fs)) where
  null _ := .of_short (Nat.zero_le _)
  array {xs p} hd h := by
    have hitems : ∀ policy, (w.under policy).field p (.array xs) =
        ((w.under policy).items p 0 xs).map .array := fun _ => field_items hd
    rw [FieldFirst, hitems, hitems]
    exact h.map _
  promoted {v p} hd hnull harray h := by
    have hpromoted : ∀ policy, (w.under policy).field p v =
        ((w.under policy).field (p.child (.index 0)) v).map fun u => .array [u] :=
      fun _ => field_promoted hd hnull harray
    rw [FieldFirst, hpromoted, hpromoted]
    exact h.map _
  object {fs p} hd h := by
    have hobject : ∀ policy, (w.under policy).field p (.object fs) =
        ((w.under policy).fields p fs).map .object := fun _ => field_object hd rfl
    rw [FieldFirst, hobject, hobject]
    exact h.map _
  misshapen {v p} hd hnull hobject := by
    have hfailed : ∀ policy, (w.under policy).field p v = .failed p (.ofShape v objectName) v :=
      fun _ => field_misshapen hd hnull hobject
    rw [FieldFirst, hfailed, hfailed]
    exact .of_short (Nat.le_refl 1)
  atom {v p} hi ho _ := by
    have hatom : ∀ policy, (w.under policy).field p v = w.atom p v := fun _ => field_eq_atom hi ho
    rw [FieldFirst, hatom, hatom]
    exact .of_short atom_short
  noItems _ _ := .of_short (Nat.zero_le _)
  item hx hxs := items_cons_first hx hxs
  noFields _ := .of_short (Nat.zero_le _)
  kept hkeep hx hfs := fields_cons_first hkeep hx hfs
  dropped {key x fs p} hkeep hfs := by
    have hdropped : ∀ policy, (w.under policy).fields p ((key, x) :: fs) =
        (w.under policy).fields p fs := fun _ => fields_cons_dropped hkeep
    rw [hdropped, hdropped]
    exact hfs

end Walker

end TypedDocs
