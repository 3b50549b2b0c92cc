import Mathlib.Algebra.Order.Field.Power
import Mathlib.Tactic.FieldSimp
import Mathlib.Tactic.Linarith
import Mathlib.Tactic.NormNum
import Mathlib.Tactic.Positivity
import Mathlib.Tactic.Ring
import TypedDocs.Number.Basic

/-!
# Rounding a quotient to a double

`Binary64.ofRatio?` rounds an exact quotient once. A quotient is compared with the tie just below a
power of two: it is rounded to less than the power if it is below the tie, and to the power or more
otherwise. The tie at the end of the range decides which quotients have no double. A natural number
of up to 53 bits is a double, and nothing is lost.
-/

namespace TypedDocs

theorem cast_twoTo (k : ℕ) : ((twoTo k : ℕ) : ℚ) = 2 ^ k := by
  have hpow : twoTo k = 2 ^ k := rfl
  rw [hpow, Nat.cast_pow, Nat.cast_ofNat]

theorem two_zpow_pos (e : ℤ) : (0 : ℚ) < 2 ^ e := zpow_pos (by norm_num) e

theorem two_zpow_le {d e : ℤ} (h : d ≤ e) : (2 : ℚ) ^ d ≤ 2 ^ e :=
  zpow_le_zpow_right₀ (by norm_num) h

theorem two_zpow_add (d e : ℤ) : (2 : ℚ) ^ (d + e) = 2 ^ d * 2 ^ e := zpow_add₀ (by norm_num) d e

/-- A power of either sign moves to the side where it is a natural number. -/
theorem scaled_eq (num den : ℕ) (e : ℤ) :
    ((num * twoTo (-e).toNat : ℕ) : ℚ) / ((den * twoTo e.toNat : ℕ) : ℚ) = num / den / 2 ^ e := by
  rw [Nat.cast_mul, Nat.cast_mul, cast_twoTo, cast_twoTo]
  rcases Int.le_total 0 e with he | he
  · obtain ⟨n, rfl⟩ := Int.eq_ofNat_of_zero_le he
    have hneg : (-(n : ℤ)).toNat = 0 := by omega
    rw [hneg, Int.toNat_natCast, zpow_natCast, pow_zero, mul_one, div_div]
  · obtain ⟨n, hn⟩ : ∃ n : ℕ, e = -(n : ℤ) := ⟨(-e).toNat, by omega⟩
    subst hn
    have hneg : (-(n : ℤ)).toNat = 0 := by omega
    rw [hneg, neg_neg, Int.toNat_natCast, zpow_neg, zpow_natCast, pow_zero, mul_one, div_inv_eq_mul,
      mul_div_right_comm]

namespace Binary64

/-- Which quotients are rounded to at most `k`: those up to the middle between `k` and the next
natural, with the middle itself if `k` is even. -/
theorem divRoundEven_le_iff {a b k : ℕ} (hb : 0 < b) : divRoundEven a b ≤ k ↔
    2 * a < (2 * k + 1) * b ∨ (2 * a = (2 * k + 1) * b ∧ k % 2 = 0) := by
  have hsplit := Nat.div_add_mod a b
  have hr := Nat.mod_lt a hb
  unfold divRoundEven
  generalize a / b = q at hsplit ⊢
  generalize a % b = r at hsplit hr ⊢
  subst hsplit
  rcases Nat.lt_trichotomy k q with hk | rfl | hk
  · obtain ⟨t, rfl⟩ : ∃ t, q = k + 1 + t := ⟨q - k - 1, by omega⟩
    have hlow : (2 * k + 1) * b < 2 * (b * (k + 1 + t) + r) := by nlinarith
    simp only
    split
    · omega
    · split
      · omega
      · split <;> omega
  · have hmul : (2 * k + 1) * b = 2 * (b * k) + b := by ring
    rw [hmul]
    simp only
    split
    · omega
    · split
      · omega
      · split <;> omega
  · obtain ⟨t, rfl⟩ : ∃ t, k = q + 1 + t := ⟨k - q - 1, by omega⟩
    have hhigh : 2 * (b * q + r) < (2 * (q + 1 + t) + 1) * b := by nlinarith
    simp only
    split
    · omega
    · split
      · omega
      · split <;> omega

theorem divRoundEven_le_iff_quotient {a b k : ℕ} (hb : 0 < b) : divRoundEven a b ≤ k ↔
    (a / b : ℚ) < k + 1 / 2 ∨ ((a / b : ℚ) = k + 1 / 2 ∧ k % 2 = 0) := by
  have hbq : (0 : ℚ) < b := by exact_mod_cast hb
  rw [divRoundEven_le_iff hb, div_lt_iff₀ hbq, div_eq_iff hbq.ne']
  have hlt : 2 * a < (2 * k + 1) * b ↔ (a : ℚ) < (k + 1 / 2) * b := by
    rw [← Nat.cast_lt (α := ℚ)]
    push_cast
    constructor <;> intro h <;> linarith
  have heq : 2 * a = (2 * k + 1) * b ↔ (a : ℚ) = (k + 1 / 2) * b := by
    rw [← Nat.cast_inj (R := ℚ)]
    push_cast
    constructor <;> intro h <;> linarith
  rw [hlt, heq]

/-- A quotient without a remainder is not rounded. -/
theorem divRoundEven_of_eq {a b n : ℕ} (hb : 0 < b) (h : (a / b : ℚ) = n) :
    divRoundEven a b = n := by
  apply Nat.le_antisymm
  · rw [divRoundEven_le_iff_quotient hb, h]
    left
    linarith
  · by_contra hlt
    obtain ⟨k, rfl⟩ : ∃ k, n = k + 1 := ⟨n - 1, by omega⟩
    have hle : divRoundEven a b ≤ k := by omega
    rw [divRoundEven_le_iff_quotient hb, h] at hle
    push_cast at hle
    rcases hle with hle | ⟨hle, -⟩ <;> linarith

theorem log2_bounds {n : ℕ} (h : 0 < n) :
    (2 : ℚ) ^ (Nat.log2 n : ℤ) ≤ n ∧ (n : ℚ) < 2 ^ ((Nat.log2 n : ℤ) + 1) := by
  have hsucc : ((Nat.log2 n : ℤ) + 1) = ((Nat.log2 n + 1 : ℕ) : ℤ) := by push_cast; rfl
  rw [hsucc, zpow_natCast, zpow_natCast]
  constructor
  · exact_mod_cast Nat.log2_self_le h.ne'
  · exact_mod_cast Nat.lt_log2_self

theorem scaled_lt_iff {num den : ℕ} (hden : 0 < den) (k : ℤ) :
    num * twoTo (-k).toNat < den * twoTo k.toNat ↔ (num / den : ℚ) < 2 ^ k := by
  have hpos : (0 : ℚ) < ((den * twoTo k.toNat : ℕ) : ℚ) := by
    rw [Nat.cast_mul, cast_twoTo]
    positivity
  rw [← Nat.cast_lt (α := ℚ), ← div_lt_one hpos, scaled_eq, div_lt_one (two_zpow_pos k)]

theorem binaryExponent_bounds {num den : ℕ} (hnum : 0 < num) (hden : 0 < den) :
    (2 : ℚ) ^ binaryExponent num den ≤ num / den ∧
      (num / den : ℚ) < 2 ^ (binaryExponent num den + 1) := by
  obtain ⟨hnlow, hnhigh⟩ := log2_bounds hnum
  obtain ⟨hdlow, hdhigh⟩ := log2_bounds hden
  have hdenq : (0 : ℚ) < den := by exact_mod_cast hden
  unfold binaryExponent
  simp only [scaled_lt_iff hden]
  generalize (Nat.log2 num : ℤ) = n at *
  generalize (Nat.log2 den : ℤ) = d at *
  split
  · rename_i hlt
    rw [sub_add_cancel]
    refine ⟨?_, hlt⟩
    rw [le_div_iff₀ hdenq]
    calc (2 : ℚ) ^ (n - d - 1) * den ≤ 2 ^ (n - d - 1) * 2 ^ (d + 1) := by gcongr
      _ = 2 ^ n := by rw [← two_zpow_add]; congr 1; ring
      _ ≤ num := hnlow
  · rename_i hlow
    refine ⟨le_of_not_gt hlow, ?_⟩
    rw [div_lt_iff₀ hdenq]
    calc (num : ℚ) < 2 ^ (n + 1) := hnhigh
      _ = 2 ^ (n - d + 1) * 2 ^ d := by rw [← two_zpow_add]; congr 1; ring
      _ ≤ 2 ^ (n - d + 1) * den := by gcongr

/-- The power of two whose multiples a ratio is rounded to. -/
def unitExponent (num den : ℕ) : ℤ := max (binaryExponent num den - 52) (-1074)

/-- The multiple of its unit that a ratio is rounded to. -/
def roundedUnits (num den : ℕ) : ℕ :=
  divRoundEven (num * twoTo (-unitExponent num den).toNat)
    (den * twoTo (unitExponent num den).toNat)

/-- What a ratio is rounded to, if there is no bound to exponents. -/
def roundedValue (num den : ℕ) : ℚ := roundedUnits num den * (2 : ℚ) ^ unitExponent num den

/-- The absolute value of a double. -/
def absValue (x : Binary64) : ℚ := x.significand * (2 : ℚ) ^ x.exponent

theorem ofRatio?_eq {negative : Bool} {num den : ℕ} (hnum : 0 < num) :
    ofRatio? negative num den =
      if roundedUnits num den = 2 * leastSignificand
      then ofParts? negative leastSignificand (unitExponent num den + 1)
      else ofParts? negative (roundedUnits num den) (unitExponent num den) := by
  rw [ofRatio?, if_neg hnum.ne']
  rfl

section Rounding

variable {negative : Bool} {num den : ℕ} (hnum : 0 < num) (hden : 0 < den)

theorem cast_leastSignificand : (leastSignificand : ℚ) = 2 ^ (52 : ℤ) := by
  norm_num [leastSignificand]

/-- The first number of more than 53 bits. -/
theorem cast_two_mul_leastSignificand : ((2 * leastSignificand : ℕ) : ℚ) = 2 ^ (53 : ℤ) := by
  norm_num [leastSignificand]

theorem cast_largestSignificand : ((2 * leastSignificand - 1 : ℕ) : ℚ) = 2 ^ (53 : ℤ) - 1 := by
  norm_num [leastSignificand]

include hden in
theorem roundedUnits_le_iff {k : ℕ} : roundedUnits num den ≤ k ↔
    (num / den : ℚ) < (k + 1 / 2) * 2 ^ unitExponent num den ∨
      ((num / den : ℚ) = (k + 1 / 2) * 2 ^ unitExponent num den ∧ k % 2 = 0) := by
  have hpos : 0 < den * twoTo (unitExponent num den).toNat :=
    Nat.mul_pos hden (Nat.pow_pos (by decide))
  have hunit := two_zpow_pos (unitExponent num den)
  rw [roundedUnits, divRoundEven_le_iff_quotient hpos, scaled_eq, div_lt_iff₀ hunit,
    div_eq_iff hunit.ne']

include hnum hden in
theorem roundedUnits_le : roundedUnits num den ≤ 2 * leastSignificand := by
  have hhigh := (binaryExponent_bounds hnum hden).2
  rw [roundedUnits_le_iff hden]
  left
  have hunit : binaryExponent num den + 1 ≤ 53 + unitExponent num den := by
    unfold unitExponent
    omega
  have hpos := two_zpow_pos (unitExponent num den)
  calc (num / den : ℚ) < 2 ^ (binaryExponent num den + 1) := hhigh
    _ ≤ 2 ^ (53 + unitExponent num den) := two_zpow_le hunit
    _ = 2 ^ (53 : ℤ) * 2 ^ unitExponent num den := two_zpow_add _ _
    _ ≤ ((2 * leastSignificand : ℕ) + 1 / 2) * 2 ^ unitExponent num den := by
      rw [cast_two_mul_leastSignificand]
      gcongr
      norm_num

/-- Unless the unit is the least one, all 53 bits are used. -/
theorem leastSignificand_le_roundedUnits (hunit : unitExponent num den ≠ -1074) (hnum : 0 < num)
    (hden : 0 < den) : leastSignificand ≤ roundedUnits num den := by
  have hlow := (binaryExponent_bounds hnum hden).1
  have hexp : binaryExponent num den = 52 + unitExponent num den := by
    unfold unitExponent at hunit ⊢
    omega
  rw [hexp, two_zpow_add, ← cast_leastSignificand] at hlow
  by_contra hlt
  have hle : roundedUnits num den ≤ leastSignificand - 1 := by omega
  rw [roundedUnits_le_iff hden] at hle
  have hpos := two_zpow_pos (unitExponent num den)
  have hcast : ((leastSignificand - 1 : ℕ) : ℚ) = leastSignificand - 1 := by
    norm_num [leastSignificand]
  rw [hcast] at hle
  have hmul : (leastSignificand : ℚ) * 2 ^ unitExponent num den ≤
      (leastSignificand - 1 + 1 / 2) * 2 ^ unitExponent num den := by
    rcases hle with hle | ⟨hle, -⟩ <;> linarith
  linarith

include hnum hden in
theorem roundedValue_le : roundedValue num den ≤ 2 ^ (53 + unitExponent num den) := by
  have hle : (roundedUnits num den : ℚ) ≤ 2 ^ (53 : ℤ) := by
    rw [← cast_two_mul_leastSignificand, Nat.cast_le]
    exact roundedUnits_le hnum hden
  rw [roundedValue, two_zpow_add]
  have hpos := two_zpow_pos (unitExponent num den)
  gcongr

include hnum hden in
theorem le_roundedValue (hunit : unitExponent num den ≠ -1074) :
    2 ^ (52 + unitExponent num den) ≤ roundedValue num den := by
  have hle : (leastSignificand : ℚ) ≤ roundedUnits num den :=
    Nat.cast_le.2 (leastSignificand_le_roundedUnits hunit hnum hden)
  rw [roundedValue, two_zpow_add, ← cast_leastSignificand]
  have hpos := two_zpow_pos (unitExponent num den)
  gcongr

/-- Halfway between the largest number of 53 bits with the unit `2 ^ j` and the next one, which is
a power of two. -/
def tieBelow (j : ℤ) : ℚ := ((2 * leastSignificand - 1) * 2 ^ j + 2 ^ (53 + j)) / 2

theorem tieBelow_eq (j : ℤ) : tieBelow j = ((2 * leastSignificand - 1 : ℕ) + 1 / 2) * 2 ^ j := by
  have htwice : (2 : ℚ) * leastSignificand = 2 ^ (53 : ℤ) := by
    exact_mod_cast cast_two_mul_leastSignificand
  rw [tieBelow, cast_largestSignificand, htwice, two_zpow_add]
  ring

theorem tieBelow_bounds (j : ℤ) : (2 : ℚ) ^ (52 + j) ≤ tieBelow j ∧ tieBelow j ≤ 2 ^ (53 + j) := by
  have hpos := two_zpow_pos j
  rw [tieBelow_eq, two_zpow_add, two_zpow_add]
  constructor
  · gcongr
    norm_num [leastSignificand]
  · gcongr
    norm_num [leastSignificand]

theorem tieBelow_pos (j : ℤ) : 0 < tieBelow j := (two_zpow_pos _).trans_le (tieBelow_bounds j).1

/-- Rounding does not cross a power of two from below, except from the tie on. -/
theorem roundedValue_of_lt_tieBelow (hnum : 0 < num) (hden : 0 < den) {j : ℤ} (hj : -1074 ≤ j)
    (h : (num / den : ℚ) < tieBelow j) :
    roundedValue num den ≤ (2 * leastSignificand - 1) * 2 ^ j := by
  have hpos := two_zpow_pos j
  rcases lt_trichotomy (unitExponent num den) j with hunit | hunit | hunit
  · calc roundedValue num den ≤ 2 ^ (53 + unitExponent num den) := roundedValue_le hnum hden
      _ ≤ 2 ^ (52 + j) := two_zpow_le (by omega)
      _ = 2 ^ (52 : ℤ) * 2 ^ j := two_zpow_add _ _
      _ ≤ (2 * leastSignificand - 1) * 2 ^ j := by
        gcongr
        norm_num [leastSignificand]
  · have hle : roundedUnits num den ≤ 2 * leastSignificand - 1 := by
      rw [roundedUnits_le_iff hden, hunit, ← tieBelow_eq]
      exact .inl h
    have hcast : (roundedUnits num den : ℚ) ≤ 2 * leastSignificand - 1 := by
      refine (Nat.cast_le.2 hle).trans_eq ?_
      norm_num [leastSignificand]
    rw [roundedValue, hunit]
    gcongr
  · have hexp : binaryExponent num den = 52 + unitExponent num den := by
      unfold unitExponent at hunit ⊢
      omega
    have hlow := (binaryExponent_bounds hnum hden).1
    have hpower : (2 : ℚ) ^ (53 + j) ≤ 2 ^ binaryExponent num den := two_zpow_le (by omega)
    linarith [(tieBelow_bounds j).2]

/-- From the tie on it is the power of two, or more. -/
theorem roundedValue_of_tieBelow_le (hnum : 0 < num) (hden : 0 < den) {j : ℤ} (hj : -1074 ≤ j)
    (h : tieBelow j ≤ (num / den : ℚ)) : 2 ^ (53 + j) ≤ roundedValue num den := by
  have hpos := two_zpow_pos j
  rcases lt_trichotomy (unitExponent num den) j with hunit | hunit | hunit
  · have hhigh := (binaryExponent_bounds hnum hden).2
    have hpower : (2 : ℚ) ^ (binaryExponent num den + 1) ≤ 2 ^ (52 + j) := by
      refine two_zpow_le ?_
      unfold unitExponent at hunit
      omega
    linarith [(tieBelow_bounds j).1]
  · have hlt : ¬ roundedUnits num den ≤ 2 * leastSignificand - 1 := by
      rw [roundedUnits_le_iff hden, hunit, ← tieBelow_eq, not_or]
      refine ⟨not_lt.2 h, fun hodd => ?_⟩
      exact absurd hodd.2 (by decide)
    have hcast : (2 : ℚ) ^ (53 : ℤ) ≤ roundedUnits num den := by
      rw [← cast_two_mul_leastSignificand, Nat.cast_le]
      omega
    rw [roundedValue, hunit, two_zpow_add]
    gcongr
  · calc (2 : ℚ) ^ (53 + j) ≤ 2 ^ (52 + unitExponent num den) := two_zpow_le (by omega)
      _ ≤ roundedValue num den := le_roundedValue hnum hden (by omega)

theorem ofParts?_of_canonical {significand : ℕ} {exponent : ℤ} (h : IsCanonical significand exponent) :
    ofParts? negative significand exponent = some ⟨negative, significand, exponent, h⟩ := dif_pos h

theorem ofParts?_of_large {significand : ℕ} {exponent : ℤ} (h : 971 < exponent) :
    ofParts? negative significand exponent = none :=
  dif_neg fun hcanonical => by
    have hle := hcanonical.2.2.1
    omega

/-- Below the end of the range the exponent of a number of 53 bits is not too large. -/
theorem exponent_le_of_lt {significand : ℕ} {exponent : ℤ} (hbits : leastSignificand ≤ significand)
    (h : (significand : ℚ) * 2 ^ exponent < 2 ^ (53 + 971 : ℤ)) : exponent ≤ 971 := by
  by_contra hlarge
  have hpos := two_zpow_pos exponent
  have hcast : (leastSignificand : ℚ) ≤ significand := Nat.cast_le.2 hbits
  have hpower : (2 : ℚ) ^ (53 + 971 : ℤ) ≤ significand * 2 ^ exponent := by
    calc (2 : ℚ) ^ (53 + 971 : ℤ) ≤ 2 ^ (52 + exponent) := two_zpow_le (by omega)
      _ = leastSignificand * 2 ^ exponent := by rw [two_zpow_add, cast_leastSignificand]
      _ ≤ significand * 2 ^ exponent := by gcongr
  exact absurd h (not_lt.2 hpower)

/-- The end of the range of doubles, halfway between the largest one and the next power of two. -/
def overflowBound : ℚ := tieBelow 971

theorem overflowBound_eq : overflowBound = 2 ^ 1024 - 2 ^ 970 := by
  have htop : (2 : ℚ) ^ 1024 = 2 ^ 54 * 2 ^ 970 := (pow_add 2 54 970)
  have hunit : (2 : ℚ) ^ (971 : ℤ) = 2 * 2 ^ 970 := by
    have hexponent : (971 : ℤ) = 1 + (970 : ℕ) := rfl
    rw [hexponent, two_zpow_add, zpow_one, zpow_natCast]
  rw [overflowBound, tieBelow_eq, htop, hunit]
  generalize (2 : ℚ) ^ 970 = power
  norm_num [leastSignificand]
  ring

/-- A ratio below the end of the range is rounded to a double. -/
theorem ofRatio?_of_lt (negative : Bool) (hnum : 0 < num) (hden : 0 < den)
    (h : (num / den : ℚ) < overflowBound) :
    ∃ x, ofRatio? negative num den = some x ∧ x.negative = negative ∧
      x.absValue = roundedValue num den := by
  have hvalue := roundedValue_of_lt_tieBelow hnum hden (by norm_num) h
  have hbelow : roundedValue num den < 2 ^ (53 + 971 : ℤ) := by
    refine hvalue.trans_lt ?_
    rw [two_zpow_add]
    have hpos := two_zpow_pos 971
    gcongr
    norm_num [leastSignificand]
  have hunits := roundedUnits_le hnum hden
  have hleast : -1074 ≤ unitExponent num den := le_max_right _ _
  have hbits : unitExponent num den ≠ -1074 → leastSignificand ≤ roundedUnits num den :=
    fun hunit => leastSignificand_le_roundedUnits hunit hnum hden
  rw [ofRatio?_eq hnum]
  split
  · rename_i hfull
    have hcarry : (leastSignificand : ℚ) * 2 ^ (unitExponent num den + 1) = roundedValue num den := by
      rw [roundedValue, hfull, two_zpow_add]
      push_cast
      ring
    have hexp : unitExponent num den + 1 ≤ 971 :=
      exponent_le_of_lt (Nat.le_refl _) (hcarry ▸ hbelow)
    have hcanonical : IsCanonical leastSignificand (unitExponent num den + 1) :=
      ⟨by decide, by omega, hexp, .inl (Nat.le_refl _)⟩
    exact ⟨_, ofParts?_of_canonical hcanonical, rfl, hcarry⟩
  · rename_i hfull
    have hexp : unitExponent num den ≤ 971 := by
      by_cases hunit : unitExponent num den = -1074
      · omega
      · exact exponent_le_of_lt (hbits hunit) hbelow
    have hcanonical : IsCanonical (roundedUnits num den) (unitExponent num den) := by
      refine ⟨by omega, hleast, hexp, ?_⟩
      by_cases hunit : unitExponent num den = -1074
      · exact .inr hunit
      · exact .inl (hbits hunit)
    exact ⟨_, ofParts?_of_canonical hcanonical, rfl, rfl⟩

/-- From there on it has none. -/
theorem ofRatio?_of_le (hnum : 0 < num) (hden : 0 < den) (h : overflowBound ≤ (num / den : ℚ)) :
    ofRatio? negative num den = none := by
  have hvalue := roundedValue_of_tieBelow_le hnum hden (by norm_num) h
  have hunit : 971 ≤ unitExponent num den := by
    by_contra hsmall
    have hpower : (2 : ℚ) ^ (53 + unitExponent num den) < 2 ^ (53 + 971 : ℤ) :=
      zpow_lt_zpow_right₀ (by norm_num) (by omega)
    linarith [roundedValue_le hnum hden]
  rw [ofRatio?_eq hnum]
  split
  · exact ofParts?_of_large (by omega)
  · rename_i hfull
    refine ofParts?_of_large ?_
    by_contra hlarge
    have heq : unitExponent num den = 971 := by omega
    have hlt : roundedUnits num den < 2 * leastSignificand :=
      lt_of_le_of_ne (roundedUnits_le hnum hden) hfull
    have hcast : (roundedUnits num den : ℚ) < 2 ^ (53 : ℤ) := by
      rwa [← cast_two_mul_leastSignificand, Nat.cast_lt]
    rw [roundedValue, heq, two_zpow_add] at hvalue
    have hpos := two_zpow_pos 971
    exact absurd ((mul_le_mul_iff_of_pos_right hpos).1 hvalue) (not_le.2 hcast)

/-- A number that its unit divides is not rounded. -/
theorem roundedValue_of_multiple (hden : 0 < den) {n : ℕ}
    (h : (num / den : ℚ) = n * 2 ^ unitExponent num den) : roundedValue num den = num / den := by
  have hpos : 0 < den * twoTo (unitExponent num den).toNat :=
    Nat.mul_pos hden (Nat.pow_pos (by decide))
  have hunits : roundedUnits num den = n := by
    refine divRoundEven_of_eq hpos ?_
    rw [scaled_eq, h, mul_div_assoc, div_self (two_zpow_pos _).ne', mul_one]
  rw [roundedValue, hunits, h]

/-- A natural number is not rounded if its unit is a fraction. -/
theorem roundedValue_of_unit_nonpos (hden : 0 < den) {n : ℕ} (h : (num / den : ℚ) = n)
    (hunit : unitExponent num den ≤ 0) : roundedValue num den = n := by
  obtain ⟨k, hk⟩ : ∃ k : ℕ, unitExponent num den = -(k : ℤ) :=
    ⟨(-unitExponent num den).toNat, by omega⟩
  have hmultiple : (num / den : ℚ) = (n * 2 ^ k : ℕ) * 2 ^ unitExponent num den := by
    rw [h, hk, zpow_neg, zpow_natCast]
    push_cast
    field_simp
  rw [roundedValue_of_multiple hden hmultiple, h]

/-- Natural numbers below `2 ^ 53` are not rounded. -/
theorem roundedValue_of_small (hnum : 0 < num) (hden : 0 < den) {n : ℕ}
    (h : (num / den : ℚ) = n) (hn : n < 2 * leastSignificand) : roundedValue num den = n := by
  refine roundedValue_of_unit_nonpos hden h ?_
  by_contra hunit
  have hlow := (binaryExponent_bounds hnum hden).1
  have hpower : (2 : ℚ) ^ (53 : ℤ) ≤ 2 ^ binaryExponent num den := by
    refine two_zpow_le ?_
    unfold unitExponent at hunit
    omega
  have hcast : (n : ℚ) < 2 ^ (53 : ℤ) := by
    rwa [← cast_two_mul_leastSignificand, Nat.cast_lt]
  rw [h] at hlow
  exact absurd (hpower.trans hlow) (not_le.2 hcast)

/-- A natural number is rounded to a natural number. -/
theorem exists_roundedValue_eq (hden : 0 < den) {n : ℕ} (h : (num / den : ℚ) = n) :
    ∃ m : ℕ, roundedValue num den = m := by
  by_cases hunit : unitExponent num den ≤ 0
  · exact ⟨n, roundedValue_of_unit_nonpos hden h hunit⟩
  · obtain ⟨k, hk⟩ : ∃ k : ℕ, unitExponent num den = (k : ℤ) :=
      ⟨(unitExponent num den).toNat, by omega⟩
    refine ⟨roundedUnits num den * 2 ^ k, ?_⟩
    rw [roundedValue, hk, zpow_natCast]
    push_cast
    rfl

end Rounding

section Naturals

variable {x : Binary64} {n : ℕ}

theorem absValue_zero (negative : Bool) : (zero negative).absValue = 0 := by
  simp [absValue, zero]

/-- A double whose absolute value is a natural number has no fraction. -/
theorem numerator_of_absValue (h : x.absValue = n) : x.numerator = n * x.denominator := by
  have hden : (0 : ℚ) < x.denominator := by
    rw [denominator, cast_twoTo]
    positivity
  have hscaled := scaled_eq x.significand 1 (-x.exponent)
  rw [neg_neg, one_mul, Nat.cast_one, div_one, zpow_neg, div_inv_eq_mul] at hscaled
  have hratio : (x.numerator / x.denominator : ℚ) = n := hscaled.trans h
  rw [div_eq_iff hden.ne'] at hratio
  exact_mod_cast hratio

theorem denominator_pos (x : Binary64) : 0 < x.denominator := Nat.pow_pos (by decide)

theorem isIntegral_of_absValue (h : x.absValue = n) : x.isIntegral = true := by
  rw [isIntegral, numerator_of_absValue h, Nat.mul_mod_left]
  rfl

theorem magnitude_of_absValue (h : x.absValue = n) : x.magnitude = n := by
  rw [magnitude, numerator_of_absValue h, Nat.mul_div_cancel _ x.denominator_pos]

end Naturals

end Binary64

/-- Integers without a sign bit too many are written as integers. -/
theorem Number.ofBinary64_of_absValue {x : Binary64} {k : ℤ} (hvalue : x.absValue = k.natAbs)
    (hsign : k ≠ 0 → x.negative = decide (k < 0)) (hk : k.natAbs ≤ maxSafeInteger) :
    ∃ h : InWordRange k, ofBinary64 x = .integer k h := by
  have htruncate : x.truncate = k := by
    rw [Binary64.truncate, Binary64.magnitude_of_absValue hvalue]
    by_cases hzero : k = 0
    · subst hzero
      split <;> rfl
    · rw [hsign hzero]
      split
      · rename_i hneg
        rw [decide_eq_true_eq] at hneg
        omega
      · rename_i hneg
        rw [decide_eq_true_eq] at hneg
        omega
  have hrange : InWordRange k := by
    unfold maxSafeInteger at hk
    omega
  refine ⟨hrange, ?_⟩
  have hall : x.isIntegral ∧ InWordRange x.truncate ∧ x.magnitude ≤ maxSafeInteger :=
    ⟨Binary64.isIntegral_of_absValue hvalue, htruncate ▸ hrange,
      (Binary64.magnitude_of_absValue hvalue).trans_le hk⟩
  rw [ofBinary64, dif_pos hall]
  simp only [htruncate]

end TypedDocs
