/-!
# Chains of steps that can fail

A cast is carried out part by part, and the first error ends it. The lemmas open one
link of such a chain at a time.
-/

namespace Except

variable {ε α β γ : Type}

theorem map_eq_ok_iff {r : Except ε α} {f : α → β} {b : β} :
    r.map f = .ok b ↔ ∃ a, r = .ok a ∧ f a = b := by
  cases r <;> simp [Except.map]

theorem map_eq_error_iff {r : Except ε α} {f : α → β} {e : ε} :
    r.map f = .error e ↔ r = .error e := by
  cases r <;> simp [Except.map]

theorem bind_eq_ok_iff {r : Except ε α} {f : α → Except ε β} {b : β} :
    r.bind f = .ok b ↔ ∃ a, r = .ok a ∧ f a = .ok b := by
  cases r <;> simp [Except.bind]

theorem eq_ok_of_toOption {r : Except ε α} {a : α} (h : r.toOption = some a) : r = .ok a := by
  cases r with
  | ok b => cases h; rfl
  | error e => cases h

theorem map_map {r : Except ε α} {f : α → β} {g : β → γ} :
    (r.map f).map g = r.map fun a => g (f a) := by
  cases r <;> rfl

theorem mapM_cons {f : α → Except ε β} {x : α} {xs : List α} :
    (x :: xs).mapM f = (f x).bind fun y => (xs.mapM f).map fun ys => y :: ys := by
  rw [List.mapM_cons]
  rfl

/-- Where a second step on each part changes nothing, neither does one on all parts. -/
theorem mapM_again {f : α → Except ε α} (hf : ∀ x y, f x = .ok y → f y = .ok y)
    {xs ys : List α} (h : xs.mapM f = .ok ys) : ys.mapM f = .ok ys := by
  induction xs generalizing ys with
  | nil =>
    cases h
    rfl
  | cons x xs ih =>
    rw [mapM_cons] at h
    obtain ⟨y, hy, h⟩ := bind_eq_ok_iff.1 h
    obtain ⟨zs, hzs, rfl⟩ := map_eq_ok_iff.1 h
    rw [mapM_cons, hf x y hy, ih hzs]
    rfl

theorem mem_of_mapM_ok {f : α → Except ε β} {xs : List α} {ys : List β} {y : β}
    (h : xs.mapM f = .ok ys) (hy : y ∈ ys) : ∃ x ∈ xs, f x = .ok y := by
  induction xs generalizing ys with
  | nil =>
    cases h
    cases hy
  | cons x xs ih =>
    rw [mapM_cons] at h
    obtain ⟨z, hz, h⟩ := bind_eq_ok_iff.1 h
    obtain ⟨zs, hzs, rfl⟩ := map_eq_ok_iff.1 h
    rcases List.mem_cons.1 hy with rfl | hy
    · exact ⟨x, List.mem_cons_self, hz⟩
    · obtain ⟨u, hu, hcast⟩ := ih hzs hy
      exact ⟨u, List.mem_cons_of_mem _ hu, hcast⟩

end Except
