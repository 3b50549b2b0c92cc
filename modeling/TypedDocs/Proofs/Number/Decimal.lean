import Mathlib.Data.Nat.Digits.Defs
import TypedDocs.Proofs.Number.Rounding

/-!
# The double of a decimal numeral

A numeral denotes a rational number. It has a double exactly if that number is below the end of the
range, also where the count of digits alone has settled the matter, and a natural number of up to 53
bits is kept as it is.
-/

namespace TypedDocs

theorem cast_tenTo (k : ℕ) : ((tenTo k : ℕ) : ℚ) = 10 ^ k := by
  have hpow : tenTo k = 10 ^ k := rfl
  rw [hpow, Nat.cast_pow, Nat.cast_ofNat]

theorem ten_zpow_pos (e : ℤ) : (0 : ℚ) < 10 ^ e := zpow_pos (by norm_num) e

theorem ten_zpow_le {d e : ℤ} (h : d ≤ e) : (10 : ℚ) ^ d ≤ 10 ^ e :=
  zpow_le_zpow_right₀ (by norm_num) h

/-- A natural number lies between the powers of ten that its length names. -/
theorem decimalLength_bounds {n : ℕ} (h : 0 < n) :
    (10 : ℚ) ^ ((decimalLength n : ℤ) - 1) ≤ n ∧ (n : ℚ) < 10 ^ (decimalLength n : ℤ) := by
  have hpos : 0 < decimalLength n := Nat.length_toDigits_pos
  have hle : ∀ k, 0 < k → (decimalLength n ≤ k ↔ n < 10 ^ k) := fun k hk =>
    Nat.length_toDigits_le_iff (by decide) hk
  constructor
  · obtain ⟨k, hk⟩ : ∃ k, decimalLength n = k + 1 := ⟨decimalLength n - 1, by omega⟩
    have hexp : (decimalLength n : ℤ) - 1 = (k : ℤ) := by omega
    rw [hexp, zpow_natCast]
    by_cases hzero : k = 0
    · subst hzero
      rw [pow_zero]
      exact_mod_cast h
    · have hge : ¬ n < 10 ^ k := fun hlt => by
        have := (hle k (by omega)).2 hlt
        omega
      exact_mod_cast not_lt.1 hge
  · rw [zpow_natCast]
    exact_mod_cast (hle _ hpos).1 (Nat.le_refl _)

/-- No double is as large as this power of ten. -/
theorem overflowBound_le : Binary64.overflowBound ≤ 10 ^ (400 : ℤ) := by
  have hfourth : (2 : ℚ) ^ 256 ≤ 10 ^ 100 := by norm_num
  calc Binary64.overflowBound ≤ (2 : ℚ) ^ (53 + 971 : ℤ) := (Binary64.tieBelow_bounds 971).2
    _ = ((2 : ℚ) ^ 256) ^ 4 := by rw [← pow_mul, ← zpow_natCast]; norm_num
    _ ≤ ((10 : ℚ) ^ 100) ^ 4 := by gcongr
    _ = 10 ^ (400 : ℤ) := by rw [← pow_mul, ← zpow_natCast]; norm_num

theorem one_le_overflowBound : 1 ≤ Binary64.overflowBound := by
  have hpower : (2 : ℚ) ^ (0 : ℤ) ≤ 2 ^ (52 + 971 : ℤ) := two_zpow_le (by norm_num)
  rw [zpow_zero] at hpower
  exact hpower.trans (Binary64.tieBelow_bounds 971).1

namespace Decimal

/-- The number that a numeral denotes, without its sign. -/
def absValue (d : Decimal) : ℚ := d.coefficient * (10 : ℚ) ^ d.scale

/-- The number that a numeral denotes. -/
def value (d : Decimal) : ℚ := if d.negative then -d.absValue else d.absValue

variable {d : Decimal}

theorem absValue_nonneg (d : Decimal) : 0 ≤ d.absValue :=
  mul_nonneg (Nat.cast_nonneg _) (ten_zpow_pos _).le

theorem abs_value (d : Decimal) : |d.value| = d.absValue := by
  rw [value]
  split
  · rw [abs_neg, abs_of_nonneg d.absValue_nonneg]
  · rw [abs_of_nonneg d.absValue_nonneg]

theorem ratio_eq (d : Decimal) :
    ((d.coefficient * tenTo d.scale.toNat : ℕ) / (tenTo (-d.scale).toNat : ℕ) : ℚ) =
      d.absValue := by
  rw [Nat.cast_mul, cast_tenTo, cast_tenTo, absValue]
  rcases Int.le_total 0 d.scale with hscale | hscale
  · obtain ⟨n, hn⟩ := Int.eq_ofNat_of_zero_le hscale
    have hneg : (-(n : ℤ)).toNat = 0 := by omega
    rw [hn, hneg, Int.toNat_natCast, zpow_natCast, pow_zero, div_one]
  · obtain ⟨n, hn⟩ : ∃ n : ℕ, d.scale = -(n : ℤ) := ⟨(-d.scale).toNat, by omega⟩
    have hneg : (-(n : ℤ)).toNat = 0 := by omega
    rw [hn, hneg, neg_neg, Int.toNat_natCast, zpow_neg, zpow_natCast, pow_zero, mul_one,
      div_eq_mul_inv]

/-- A numeral lies between the powers of ten that its first digit stands at. -/
theorem absValue_bounds (h : d.coefficient ≠ 0) :
    (10 : ℚ) ^ (d.scale + decimalLength d.coefficient - 1) ≤ d.absValue ∧
      d.absValue < 10 ^ (d.scale + decimalLength d.coefficient) := by
  obtain ⟨hlow, hhigh⟩ := decimalLength_bounds (Nat.pos_of_ne_zero h)
  have hpos := ten_zpow_pos d.scale
  have hten : (10 : ℚ) ≠ 0 := by norm_num
  have hexp : d.scale + decimalLength d.coefficient - 1 =
      ((decimalLength d.coefficient : ℤ) - 1) + d.scale := by omega
  rw [hexp, add_comm d.scale, zpow_add₀ hten, zpow_add₀ hten, absValue]
  constructor
  · gcongr
  · gcongr

theorem absValue_pos (h : d.coefficient ≠ 0) : 0 < d.absValue :=
  (ten_zpow_pos _).trans_le (absValue_bounds h).1

/-- A numeral whose first digit stands behind the point is less than one. -/
theorem absValue_lt_one (h : d.coefficient ≠ 0)
    (hpoint : d.scale + decimalLength d.coefficient ≤ 0) : d.absValue < 1 := by
  have hpower : (10 : ℚ) ^ (d.scale + decimalLength d.coefficient) ≤ 10 ^ (0 : ℤ) :=
    ten_zpow_le hpoint
  rw [zpow_zero] at hpower
  exact (absValue_bounds h).2.trans_le hpower

theorem ratio_pos (h : d.coefficient ≠ 0) :
    0 < d.coefficient * tenTo d.scale.toNat ∧ 0 < tenTo (-d.scale).toNat :=
  ⟨Nat.mul_pos (Nat.pos_of_ne_zero h) (Nat.pow_pos (by decide)), Nat.pow_pos (by decide)⟩

/-- A numeral below the end of the range of doubles has one, and a small natural number has the
one that is equal to it. -/
theorem toBinary64?_of_lt (h : d.absValue < Binary64.overflowBound) :
    ∃ x, d.toBinary64? = some x ∧ x.negative = d.negative ∧
      ∀ n : ℕ, d.absValue = n → n < 2 * leastSignificand → x.absValue = n := by
  unfold toBinary64?
  simp only
  split
  · rename_i hzero
    refine ⟨_, rfl, rfl, fun n hn _ => ?_⟩
    rw [← hn, Binary64.absValue_zero, absValue, hzero, Nat.cast_zero, zero_mul]
  · rename_i hcoefficient
    split
    · rename_i hlarge
      have hpower : (10 : ℚ) ^ (400 : ℤ) ≤
          10 ^ (d.scale + decimalLength d.coefficient - 1) := ten_zpow_le (by omega)
      linarith [overflowBound_le, (absValue_bounds hcoefficient).1]
    · split
      · -- No natural number is that small.
        rename_i hsmall
        refine ⟨_, rfl, rfl, fun n hn _ => ?_⟩
        have hpos := absValue_pos hcoefficient
        have hone := absValue_lt_one hcoefficient (by omega)
        rw [hn, ← Nat.cast_zero, Nat.cast_lt] at hpos
        rw [hn, ← Nat.cast_one, Nat.cast_lt] at hone
        omega
      · obtain ⟨hnum, hden⟩ := ratio_pos hcoefficient
        rw [← ratio_eq] at h
        obtain ⟨x, hx, hsign, hvalue⟩ :=
          Binary64.ofRatio?_of_lt d.negative hnum hden h
        refine ⟨x, hx, hsign, fun n hn hsmall => ?_⟩
        rw [hvalue]
        exact Binary64.roundedValue_of_small hnum hden (d.ratio_eq.trans hn) hsmall

/-- Other numerals have none. -/
theorem toBinary64?_of_le (h : Binary64.overflowBound ≤ d.absValue) : d.toBinary64? = none := by
  unfold toBinary64?
  simp only
  split
  · rename_i hzero
    rw [absValue, hzero, Nat.cast_zero, zero_mul] at h
    linarith [one_le_overflowBound]
  · rename_i hcoefficient
    split
    · rfl
    · split
      · rename_i hsmall
        have hone := absValue_lt_one hcoefficient (by omega)
        exact absurd (one_le_overflowBound.trans h) (not_le.2 hone)
      · obtain ⟨hnum, hden⟩ := ratio_pos hcoefficient
        rw [← ratio_eq] at h
        exact Binary64.ofRatio?_of_le hnum hden h

end Decimal

end TypedDocs
