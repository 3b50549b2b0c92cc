import TypedDocs.Proofs.Number.Rounding
import TypedDocs.Scalar.NumericText

/-!
# Digits that are rounded one by one

Digits of base 2, 8 or 16 are taken in one by one, and each step rounds. What is lost in this way
never carries a number across a power of two, so the digits overflow exactly if the number that
they denote does.
-/

namespace TypedDocs.NumericText

open Binary64

theorem tieBelow_add (b : ℕ) (j : ℤ) : tieBelow (b + j) = 2 ^ b * tieBelow j := by
  rw [tieBelow_eq, tieBelow_eq, two_zpow_add, zpow_natCast]
  ring

theorem tieBelow_succ (k : ℕ) : tieBelow ((k : ℤ) + 1) = ((4 * leastSignificand - 1) * 2 ^ k : ℕ) := by
  rw [tieBelow_eq, zpow_add₀ (by norm_num), zpow_natCast]
  push_cast [leastSignificand]
  ring

/-- The number `n` is on the same side of each tie as the number `p` that it stands for, and is
equal to it as long as 53 bits are enough. -/
structure Follows (p n : ℕ) : Prop where
  exact : p < 2 * leastSignificand → n = p
  below : ∀ j : ℕ, (p : ℚ) < tieBelow j → (n : ℚ) ≤ (2 * leastSignificand - 1) * 2 ^ (j : ℤ)
  above : ∀ j : ℕ, tieBelow j ≤ p → (2 : ℚ) ^ (53 + (j : ℤ)) ≤ n

theorem Follows.zero : Follows 0 0 where
  exact _ := rfl
  below j _ := by
    have hpos := two_zpow_pos j
    have hbits : (0 : ℚ) ≤ 2 * leastSignificand - 1 := by norm_num [leastSignificand]
    rw [Nat.cast_zero]
    positivity
  above j h := by
    rw [Nat.cast_zero] at h
    exact absurd h (not_le.2 (tieBelow_pos j))

section Digit

variable {p n b d : ℕ}

/-- Where 53 bits are not enough, both numbers have passed the first tie. -/
theorem Follows.large (h : Follows p n) (hlarge : 2 * leastSignificand ≤ p) :
    (2 : ℚ) ^ (53 : ℤ) ≤ p ∧ (2 : ℚ) ^ (53 : ℤ) ≤ n := by
  have hp : (2 : ℚ) ^ (53 : ℤ) ≤ p := by
    rw [← cast_two_mul_leastSignificand, Nat.cast_le]
    exact hlarge
  exact ⟨hp, h.above 0 ((tieBelow_bounds 0).2.trans hp)⟩

/-- Below a tie that is a natural number, both numbers are at least one away from it. -/
theorem Follows.add_one_le (h : Follows p n) {k : ℕ} (hp : (p : ℚ) < tieBelow ((k + 1 : ℕ) : ℤ)) :
    (p : ℚ) + 1 ≤ tieBelow ((k + 1 : ℕ) : ℤ) ∧ (n : ℚ) + 1 ≤ tieBelow ((k + 1 : ℕ) : ℤ) := by
  have hn := h.below (k + 1) hp
  constructor
  · rw [Nat.cast_add, Nat.cast_one, tieBelow_succ] at hp ⊢
    exact_mod_cast hp
  · have hone : (1 : ℚ) ≤ 2 ^ ((k : ℕ) : ℤ) := by
      rw [zpow_natCast]
      exact one_le_pow₀ (by norm_num)
    rw [tieBelow_eq]
    rw [Nat.cast_add, Nat.cast_one, zpow_add₀ (by norm_num)] at hn ⊢
    push_cast [leastSignificand] at hn ⊢
    linarith

/-- No digit brings a number back that has passed the end. -/
theorem le_appended {t : ℚ} (h : t ≤ 2 ^ b * (n : ℚ)) : t ≤ ((n * 2 ^ b + d : ℕ) : ℚ) := by
  have hd : (0 : ℚ) ≤ d := Nat.cast_nonneg d
  push_cast
  linarith

/-- No digit makes up for a whole one before it. -/
theorem appended_lt (hd : d < 2 ^ b) {t : ℚ} (h : (n : ℚ) + 1 ≤ t) :
    ((n * 2 ^ b + d : ℕ) : ℚ) < 2 ^ b * t := by
  have hdigit : (d : ℚ) < 2 ^ b := by exact_mod_cast hd
  calc ((n * 2 ^ b + d : ℕ) : ℚ) = 2 ^ b * n + d := by push_cast; ring
    _ < 2 ^ b * n + 2 ^ b := by gcongr
    _ = 2 ^ b * (n + 1) := by ring
    _ ≤ 2 ^ b * t := by gcongr

/-- One more digit leaves both numbers on the same side of each tie. -/
theorem Follows.lt_tieBelow_iff (h : Follows p n) (hd : d < 2 ^ b) (j : ℕ) :
    ((n * 2 ^ b + d : ℕ) : ℚ) < tieBelow j ↔ ((p * 2 ^ b + d : ℕ) : ℚ) < tieBelow j := by
  by_cases hsmall : p < 2 * leastSignificand
  · rw [h.exact hsmall]
  have hpassed : tieBelow j ≤ 2 ^ b * (p : ℚ) → tieBelow j ≤ 2 ^ b * (n : ℚ) →
      (((n * 2 ^ b + d : ℕ) : ℚ) < tieBelow j ↔ ((p * 2 ^ b + d : ℕ) : ℚ) < tieBelow j) :=
    fun hp hn => iff_of_false (not_lt.2 (le_appended hn)) (not_lt.2 (le_appended hp))
  obtain ⟨hplarge, hnlarge⟩ := h.large (not_lt.1 hsmall)
  rcases Nat.le_total j b with hj | hj
  · -- The digit makes both numbers larger than the power of two above the tie.
    have htie : tieBelow j ≤ 2 ^ b * 2 ^ (53 : ℤ) := by
      rw [← zpow_natCast 2 b, ← two_zpow_add]
      exact (tieBelow_bounds j).2.trans (two_zpow_le (by omega))
    exact hpassed (htie.trans (by gcongr)) (htie.trans (by gcongr))
  · -- Without the digit the tie is one that the numbers were on the same side of before.
    obtain ⟨i, rfl⟩ := Nat.exists_eq_add_of_le hj
    have hscale : tieBelow ((b + i : ℕ) : ℤ) = 2 ^ b * tieBelow i := by
      rw [Nat.cast_add, tieBelow_add]
    rw [hscale] at hpassed ⊢
    cases i with
    | zero =>
      have htie : tieBelow ((0 : ℕ) : ℤ) ≤ 2 ^ (53 : ℤ) := (tieBelow_bounds _).2
      refine hpassed ?_ ?_
      · gcongr
        exact htie.trans hplarge
      · gcongr
        exact htie.trans hnlarge
    | succ k =>
      by_cases hp : (p : ℚ) < tieBelow ((k + 1 : ℕ) : ℤ)
      · obtain ⟨hpnext, hnnext⟩ := h.add_one_le hp
        exact iff_of_true (appended_lt hd hnnext) (appended_lt hd hpnext)
      · rw [not_lt] at hp
        refine hpassed ?_ ?_
        · gcongr
        · gcongr
          exact (tieBelow_bounds _).2.trans (h.above (k + 1) hp)

end Digit

/-- A natural number is rounded to one that follows it. -/
theorem follows_ofRatio? {p y : ℕ} (hexact : p < 2 * leastSignificand → y = p)
    (hside : ∀ j : ℕ, (y : ℚ) < tieBelow j ↔ (p : ℚ) < tieBelow j) (h : (p : ℚ) < overflowBound) :
    ∃ x n, ofRatio? false y 1 = some x ∧ x.negative = false ∧ x.absValue = (n : ℕ) ∧
      Follows p n := by
  have hratio : ((y : ℚ) / (1 : ℕ) : ℚ) = y := by rw [Nat.cast_one, div_one]
  rcases Nat.eq_zero_or_pos y with rfl | hy
  · have hbelow : (p : ℚ) < tieBelow 0 := by
      refine (hside 0).1 ?_
      rw [Nat.cast_zero]
      exact tieBelow_pos _
    have hsmall : p < 2 * leastSignificand := by
      rw [← Nat.cast_lt (α := ℚ), cast_two_mul_leastSignificand]
      exact hbelow.trans_le (tieBelow_bounds 0).2
    obtain rfl := hexact hsmall
    exact ⟨zero false, 0, rfl, rfl, by rw [absValue_zero, Nat.cast_zero], .zero⟩
  · have hbound : ((y : ℚ) / (1 : ℕ) : ℚ) < overflowBound := by
      rw [hratio]
      exact (hside 971).2 h
    obtain ⟨x, hx, hsign, hvalue⟩ := ofRatio?_of_lt false hy Nat.one_pos hbound
    obtain ⟨n, hn⟩ : ∃ n : ℕ, roundedValue y 1 = n := exists_roundedValue_eq Nat.one_pos hratio
    refine ⟨x, n, hx, hsign, hvalue.trans hn, ?_, fun j hj => ?_, fun j hj => ?_⟩
    · intro hsmall
      have hy' := hexact hsmall
      subst hy'
      have hround := roundedValue_of_small hy Nat.one_pos hratio hsmall
      rw [hn] at hround
      exact_mod_cast hround
    · rw [← hn]
      refine roundedValue_of_lt_tieBelow hy Nat.one_pos (by omega) ?_
      rw [hratio]
      exact (hside j).2 hj
    · rw [← hn]
      refine roundedValue_of_tieBelow_le hy Nat.one_pos (by omega) ?_
      rw [hratio]
      exact not_lt.1 fun hlt => absurd ((hside j).1 hlt) (not_lt.2 hj)

section Digits

variable {b : ℕ} {digits : List Char}

/-- The number that digits stand for behind those of a number. -/
def digitsFrom (base p : ℕ) (digits : List Char) : ℕ :=
  digits.foldl (fun acc c => acc * base + digitValue c) p

theorem le_digitsFrom {base p : ℕ} (hbase : 0 < base) : p ≤ digitsFrom base p digits := by
  induction digits generalizing p with
  | nil => exact Nat.le_refl p
  | cons c digits ih =>
    have hstep : p ≤ p * base + digitValue c :=
      (Nat.le_mul_of_pos_right p hbase).trans (Nat.le_add_right _ _)
    exact hstep.trans ih

/-- Digits that are rounded one by one follow the number that they denote, up to the end of the
range of doubles. -/
theorem foldlM_appendDigit? (hdigits : ∀ c ∈ digits, isDigitOf (2 ^ b) c = true) {x : Binary64}
    {p n : ℕ} (hsign : x.negative = false) (hvalue : x.absValue = n) (h : Follows p n) :
    ((digitsFrom (2 ^ b) p digits : ℚ) < overflowBound → ∃ y m,
      digits.foldlM (appendDigit? (2 ^ b)) x = some y ∧ y.negative = false ∧
        y.absValue = (m : ℕ) ∧ Follows (digitsFrom (2 ^ b) p digits) m) ∧
    (overflowBound ≤ (digitsFrom (2 ^ b) p digits : ℚ) →
      (p : ℚ) < overflowBound → digits.foldlM (appendDigit? (2 ^ b)) x = none) := by
  induction digits generalizing x p n with
  | nil => exact ⟨fun _ => ⟨x, n, rfl, hsign, hvalue, h⟩, fun hle hlt => absurd hlt (not_lt.2 hle)⟩
  | cons c digits ih =>
    obtain ⟨hc, hdigits⟩ := List.forall_mem_cons.1 hdigits
    have hd : digitValue c < 2 ^ b := of_decide_eq_true hc
    have hstep : appendDigit? (2 ^ b) x c = ofRatio? false (n * 2 ^ b + digitValue c) 1 := by
      rw [appendDigit?, magnitude_of_absValue hvalue]
    have hside := h.lt_tieBelow_iff hd
    have hexact : p * 2 ^ b + digitValue c < 2 * leastSignificand →
        n * 2 ^ b + digitValue c = p * 2 ^ b + digitValue c := by
      intro hsmall
      have hp : p ≤ p * 2 ^ b := Nat.le_mul_of_pos_right p (Nat.two_pow_pos b)
      rw [h.exact (by omega)]
    have hfold : digitsFrom (2 ^ b) p (c :: digits) =
        digitsFrom (2 ^ b) (p * 2 ^ b + digitValue c) digits := rfl
    have hgrow : p * 2 ^ b + digitValue c ≤ digitsFrom (2 ^ b) p (c :: digits) := by
      rw [hfold]
      exact le_digitsFrom (Nat.two_pow_pos b)
    rw [List.foldlM_cons, hstep]
    by_cases hnext : ((p * 2 ^ b + digitValue c : ℕ) : ℚ) < overflowBound
    · obtain ⟨y, m, hy, hysign, hyvalue, hfollows⟩ := follows_ofRatio? hexact hside hnext
      obtain ⟨hfits, hover⟩ := ih hdigits hysign hyvalue hfollows
      rw [hy]
      exact ⟨hfits, fun hle _ => hover hle hnext⟩
    · have hnone : ofRatio? false (n * 2 ^ b + digitValue c) 1 = none := by
        have hbound : overflowBound ≤ ((n * 2 ^ b + digitValue c : ℕ) / (1 : ℕ) : ℚ) := by
          rw [Nat.cast_one, div_one]
          exact not_lt.1 fun hlt => hnext ((hside 971).1 hlt)
        refine ofRatio?_of_le ?_ Nat.one_pos hbound
        by_contra hzero
        rw [Nat.eq_zero_of_not_pos hzero, Nat.cast_zero, zero_div] at hbound
        exact absurd hbound (not_le.2 (tieBelow_pos 971))
      rw [hnone]
      refine ⟨fun hlt => absurd hlt (not_lt.2 ?_), fun _ _ => rfl⟩
      have hcast : ((p * 2 ^ b + digitValue c : ℕ) : ℚ) ≤ digitsFrom (2 ^ b) p (c :: digits) := by
        exact_mod_cast hgrow
      exact (not_lt.1 hnext).trans hcast

end Digits

end TypedDocs.NumericText
