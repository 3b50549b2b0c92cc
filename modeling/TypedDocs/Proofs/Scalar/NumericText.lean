import TypedDocs.Proofs.Number.Decimal
import TypedDocs.Proofs.Number.Numeral
import TypedDocs.Proofs.Scalar.Lawful
import TypedDocs.Proofs.Scalar.RoundedDigits
import TypedDocs.Proofs.Text.Trim

/-!
# Which texts are numbers

A numeric text is blank, digits behind the mark of a base, or a decimal numeral, and there may be
blanks around it. It denotes a rational number, which is rounded to a double. The texts that are
numbers are the numeric texts of the numbers below the end of the range of doubles, and those that
denote a small integer become that integer.
-/

namespace TypedDocs

namespace NumericText

/-- The mark of a base, of either case. -/
inductive IsMark : Char → ℕ → Prop
  | hexadecimal {mark : Char} (h : mark = 'x' ∨ mark = 'X') : IsMark mark 16
  | octal {mark : Char} (h : mark = 'o' ∨ mark = 'O') : IsMark mark 8
  | binary {mark : Char} (h : mark = 'b' ∨ mark = 'B') : IsMark mark 2

/-- A text without blanks around it denotes a number. -/
inductive Denotes : List Char → ℚ → Prop
  | blank : Denotes [] 0
  | based {mark : Char} {base : ℕ} {digits : List Char} (hmark : IsMark mark base)
      (hne : digits ≠ []) (hdigits : ∀ c ∈ digits, isDigitOf base c = true) :
      Denotes ('0' :: mark :: digits) (naturalOfDigits base digits)
  | decimal {cs : List Char} {d : Decimal} (h : IsNumeral cs d) : Denotes cs d.value

/-- A text denotes a number, whatever blanks there are around it. -/
def TextDenotes (s : String) (q : ℚ) : Prop := ∃ body, IsTrimOf body s.toList ∧ Denotes body q

section Reading

variable {cs digits : List Char} {mark : Char} {base : ℕ} {q : ℚ} {x : Binary64}

theorem baseOf?_eq_some_iff : baseOf? mark = some base ↔ IsMark mark base := by
  constructor
  · intro h
    unfold baseOf? at h
    split at h
    · rename_i hmark
      cases h
      exact .hexadecimal hmark
    · split at h
      · rename_i hmark
        cases h
        exact .octal hmark
      · split at h
        · rename_i hmark
          cases h
          exact .binary hmark
        · cases h
  · rintro (h | h | h) <;> rcases h with rfl | rfl <;> rfl

theorem IsMark.bits (h : IsMark mark base) : ∃ b, base = 2 ^ b := by
  cases h with
  | hexadecimal => exact ⟨4, rfl⟩
  | octal => exact ⟨3, rfl⟩
  | binary => exact ⟨1, rfl⟩

/-- No decimal numeral starts with the mark of a base. -/
theorem IsMark.not_numeral (h : IsMark mark base) : Decimal.parse? ('0' :: mark :: digits) = none := by
  rcases h with h | h | h <;> rcases h with rfl | rfl <;> rfl

/-- A double stands for a number: if that is a small integer, the double is equal to it. -/
def Represents (x : Binary64) (q : ℚ) : Prop :=
  ∀ k : ℤ, q = k → k.natAbs ≤ Number.maxSafeInteger →
    x.absValue = k.natAbs ∧ (k ≠ 0 → x.negative = decide (k < 0))

theorem represents_decimal {d : Decimal} (h : d.absValue < Binary64.overflowBound) :
    ∃ x, d.toBinary64? = some x ∧ Represents x d.value := by
  obtain ⟨x, hx, hsign, hvalue⟩ := d.toBinary64?_of_lt h
  refine ⟨x, hx, fun k hk hsafe => ?_⟩
  have habs : d.absValue = (k.natAbs : ℕ) := by
    rw [← d.abs_value, hk, Nat.cast_natAbs, Int.cast_abs]
  refine ⟨hvalue _ habs (hsafe.trans_lt (by decide)), fun hzero => ?_⟩
  rw [hsign]
  -- The number is not zero, so its sign is that of the numeral.
  have hpos : 0 < d.absValue := by
    rw [habs]
    exact_mod_cast Int.natAbs_pos.2 hzero
  have hint : (k : ℚ) < 0 ↔ k < 0 := Int.cast_lt_zero
  rw [Decimal.value] at hk
  split at hk
  · rename_i hneg
    rw [hneg, eq_comm, decide_eq_true_eq, ← hint, ← hk]
    linarith
  · rename_i hneg
    rw [Bool.not_eq_true] at hneg
    rw [hneg, eq_comm, decide_eq_false_iff_not, ← hint, ← hk]
    linarith

/-- Digits of a base have a double exactly if the number they denote is below the end of the
range. -/
theorem represents_based (hmark : IsMark mark base) (hne : digits ≠ [])
    (hdigits : ∀ c ∈ digits, isDigitOf base c = true) :
    ((naturalOfDigits base digits : ℚ) < Binary64.overflowBound →
      ∃ x, ofDigits? base digits = some x ∧ Represents x (naturalOfDigits base digits)) ∧
    (Binary64.overflowBound ≤ (naturalOfDigits base digits : ℚ) →
      ofDigits? base digits = none) := by
  obtain ⟨b, rfl⟩ := hmark.bits
  have hread : ofDigits? (2 ^ b) digits =
      digits.foldlM (appendDigit? (2 ^ b)) (Binary64.zero false) := by
    have htest : (digits.isEmpty || !digits.all (isDigitOf (2 ^ b))) = false := by
      rw [List.all_eq_true.2 hdigits, Bool.not_true, Bool.or_false, List.isEmpty_eq_false_iff]
      exact hne
    rw [ofDigits?, htest, if_neg Bool.false_ne_true]
  have hzero : (Binary64.zero false).absValue = ((0 : ℕ) : ℚ) := by
    rw [Binary64.absValue_zero, Nat.cast_zero]
  obtain ⟨hfits, hover⟩ := foldlM_appendDigit? hdigits rfl hzero .zero
  rw [hread]
  constructor
  · intro hlt
    obtain ⟨x, n, hx, hsign, hvalue, hfollows⟩ := hfits hlt
    refine ⟨x, hx, fun k hk hsafe => ?_⟩
    have hnat : (naturalOfDigits (2 ^ b) digits : ℤ) = k := by exact_mod_cast hk
    have hexact : n = naturalOfDigits (2 ^ b) digits := by
      refine hfollows.exact ?_
      change naturalOfDigits (2 ^ b) digits < 2 * leastSignificand
      have hbits : Number.maxSafeInteger < 2 * leastSignificand := by decide
      omega
    refine ⟨?_, fun _ => ?_⟩
    · rw [hvalue, hexact, ← hnat, Int.natAbs_natCast]
    · rw [hsign, eq_comm, decide_eq_false_iff_not]
      omega
  · intro hle
    refine hover hle ?_
    rw [Nat.cast_zero]
    exact lt_of_lt_of_le zero_lt_one one_le_overflowBound

theorem ofTrimmed?_of_not_based (hne : cs ≠ []) (h : based? cs = none) :
    ofTrimmed? cs = (Decimal.parse? cs).bind Decimal.toBinary64? := by
  have hempty : ¬ cs.isEmpty = true := by rwa [List.isEmpty_iff]
  rw [ofTrimmed?, if_neg hempty, h]

theorem ofTrimmed?_based (h : IsMark mark base) :
    ofTrimmed? ('0' :: mark :: digits) = ofDigits? base digits := by
  have hbased : based? ('0' :: mark :: digits) = some (base, digits) := by
    rw [based?, baseOf?_eq_some_iff.2 h, Option.map_some]
  rw [ofTrimmed?, if_neg (by exact Bool.false_ne_true), hbased]

theorem based?_eq_some (h : based? cs = some (base, digits)) :
    ∃ mark, cs = '0' :: mark :: digits ∧ IsMark mark base := by
  unfold based? at h
  split at h
  · rename_i mark rest
    rw [Option.map_eq_some_iff] at h
    obtain ⟨found, hfound, heq⟩ := h
    cases heq
    exact ⟨mark, rfl, baseOf?_eq_some_iff.1 hfound⟩
  · cases h

theorem ofTrimmed?_numeral {d : Decimal} (h : IsNumeral cs d) : ofTrimmed? cs = d.toBinary64? := by
  have hparse := Decimal.parse?_eq_some_iff.2 h
  have hnone : based? cs = none := by
    rw [Option.eq_none_iff_forall_ne_some]
    rintro ⟨base, digits⟩ hbased
    obtain ⟨mark, rfl, hmark⟩ := based?_eq_some hbased
    rw [hmark.not_numeral] at hparse
    cases hparse
  have hne : cs ≠ [] := by
    rintro rfl
    cases hparse
  rw [ofTrimmed?_of_not_based hne hnone, hparse, Option.bind_some]

/-- What a numeric text is read as. -/
theorem ofTrimmed?_of_denotes (h : Denotes cs q) :
    (|q| < Binary64.overflowBound → ∃ x, ofTrimmed? cs = some x ∧ Represents x q) ∧
    (Binary64.overflowBound ≤ |q| → ofTrimmed? cs = none) := by
  cases h with
  | blank =>
    rw [abs_zero]
    refine ⟨fun _ => ⟨Binary64.zero false, rfl, fun k hk _ => ?_⟩, fun hle => ?_⟩
    · have hzero : k = 0 := by exact_mod_cast hk.symm
      subst hzero
      exact ⟨Binary64.absValue_zero false, fun hne => absurd rfl hne⟩
    · linarith [one_le_overflowBound]
  | based hmark hne hdigits =>
    rw [Nat.abs_cast, ofTrimmed?_based hmark]
    exact represents_based hmark hne hdigits
  | decimal hd =>
    rw [Decimal.abs_value, ofTrimmed?_numeral hd]
    exact ⟨represents_decimal, Decimal.toBinary64?_of_le⟩

/-- Whatever is read as a double is a numeric text. -/
theorem denotes_of_ofTrimmed? (h : ofTrimmed? cs = some x) : ∃ q, Denotes cs q := by
  by_cases hempty : cs = []
  · exact ⟨0, hempty ▸ .blank⟩
  · cases hbased : based? cs with
    | none =>
      rw [ofTrimmed?_of_not_based hempty hbased, Option.bind_eq_some_iff] at h
      obtain ⟨d, hd, -⟩ := h
      exact ⟨d.value, .decimal (Decimal.parse?_eq_some_iff.1 hd)⟩
    | some split =>
      obtain ⟨base, digits⟩ := split
      obtain ⟨mark, rfl, hmark⟩ := based?_eq_some hbased
      rw [ofTrimmed?_based hmark, ofDigits?, Option.ite_none_left_eq_some, Bool.or_eq_true,
        not_or, List.isEmpty_iff, Bool.not_eq_true', Bool.not_eq_false, List.all_eq_true] at h
      exact ⟨_, .based hmark h.1.1 h.1.2⟩

end Reading

section Texts

variable {s : String} {q : ℚ} {k : ℤ}

theorem parse?_of_denotes_lt (h : TextDenotes s q) (hq : |q| < Binary64.overflowBound) :
    ∃ x, parse? s = some (Number.ofBinary64 x) ∧ Represents x q := by
  obtain ⟨body, htrim, hbody⟩ := h
  obtain ⟨x, hx, hrepresents⟩ := (ofTrimmed?_of_denotes hbody).1 hq
  refine ⟨x, ?_, hrepresents⟩
  rw [parse?, ← htrim.eq_trim, hx, Option.map_some]

/-- The texts that stand for a number are those of the numbers that have a double. -/
theorem parse?_isSome_iff :
    (parse? s).isSome = true ↔ ∃ q, TextDenotes s q ∧ |q| < Binary64.overflowBound := by
  constructor
  · intro h
    rw [parse?, Option.isSome_map, Option.isSome_iff_exists] at h
    obtain ⟨x, hx⟩ := h
    obtain ⟨q, hq⟩ := denotes_of_ofTrimmed? hx
    refine ⟨q, ⟨_, isTrimOf_trim _, hq⟩, lt_of_not_ge fun hle => ?_⟩
    rw [(ofTrimmed?_of_denotes hq).2 hle] at hx
    cases hx
  · rintro ⟨q, hq, hlt⟩
    obtain ⟨x, hx, -⟩ := parse?_of_denotes_lt hq hlt
    rw [hx]
    rfl

/-- A text of a small integer stands for that integer. -/
theorem parse?_of_integer (h : TextDenotes s k) (hk : k.natAbs ≤ Number.maxSafeInteger) :
    ∃ hrange, parse? s = some (.integer k hrange) := by
  have hlt : |(k : ℚ)| < Binary64.overflowBound := by
    have hsafe : (k.natAbs : ℚ) ≤ Number.maxSafeInteger := by exact_mod_cast hk
    have hpower : (2 : ℚ) ^ (53 : ℤ) ≤ 2 ^ (52 + 971 : ℤ) := two_zpow_le (by norm_num)
    rw [← Int.cast_abs, ← Nat.cast_natAbs]
    calc ((k.natAbs : ℕ) : ℚ) ≤ Number.maxSafeInteger := hsafe
      _ < 2 ^ (53 : ℤ) := by norm_num [Number.maxSafeInteger]
      _ ≤ 2 ^ (52 + 971 : ℤ) := hpower
      _ ≤ Binary64.overflowBound := (Binary64.tieBelow_bounds 971).1
  obtain ⟨x, hx, hrepresents⟩ := parse?_of_denotes_lt h hlt
  obtain ⟨hvalue, hsign⟩ := hrepresents k rfl hk
  obtain ⟨hrange, hnumber⟩ := Number.ofBinary64_of_absValue hvalue hsign hk
  exact ⟨hrange, by rw [hx, hnumber]⟩

theorem textDenotes_of_blank (h : ∀ c ∈ s.toList, isBlank c = true) : TextDenotes s 0 :=
  ⟨[], ⟨⟨s.toList, [], (List.append_nil _).symm, h, by simp⟩, by simp, by simp⟩, .blank⟩

end Texts

end NumericText

namespace ScalarType

theorem number_coerce_string (s : String) : number.coerce (.string s) =
    match NumericText.parse? s with
    | some n => .ok (.number n)
    | none => .error (.ofType (.string s) number.name) := rfl

/-- A text is coerced to a number exactly if it is numeric and the number that it denotes does not
round to infinity, as the numbers from `2 ^ 1024 - 2 ^ 970` on do. Every other text is a mismatch. A
blank text becomes the integer zero, and a text of a safe integer becomes that integer. -/
theorem coerce_number_text (s : String) :
    ((∃ v, number.coerce (.string s) = .ok v) ↔
      ∃ q, NumericText.TextDenotes s q ∧ |q| < 2 ^ 1024 - 2 ^ 970) ∧
    (∀ e, number.coerce (.string s) = .error e →
      e = .typeMismatch (Value.string s).literal "Number") ∧
    ((∀ c ∈ s.toList, isBlank c = true) →
      number.coerce (.string s) = .ok (.number (.integer 0 (by decide)))) ∧
    ∀ k : ℤ, NumericText.TextDenotes s k → |k| ≤ 2 ^ 53 - 1 →
      ∃ hrange, number.coerce (.string s) = .ok (.number (.integer k hrange)) := by
  refine ⟨?_, fun e he => lawful_number.error_of_coerce he, fun hblank => ?_, fun k hk hsafe => ?_⟩
  · rw [← Binary64.overflowBound_eq, ← NumericText.parse?_isSome_iff, number_coerce_string]
    cases NumericText.parse? s with
    | some n => exact ⟨fun _ => rfl, fun _ => ⟨_, rfl⟩⟩
    | none =>
      constructor
      · rintro ⟨v, hv⟩
        cases hv
      · intro h
        cases h
  · have hzero : NumericText.TextDenotes s ((0 : ℤ) : ℚ) := by
      rw [Int.cast_zero]
      exact NumericText.textDenotes_of_blank hblank
    obtain ⟨hrange, hparse⟩ := NumericText.parse?_of_integer hzero (by decide)
    rw [number_coerce_string, hparse]
  · have hnat : k.natAbs ≤ Number.maxSafeInteger := by
      rw [Int.abs_eq_natAbs] at hsafe
      unfold Number.maxSafeInteger
      omega
    obtain ⟨hrange, hparse⟩ := NumericText.parse?_of_integer hk hnat
    exact ⟨hrange, by rw [number_coerce_string, hparse]⟩

theorem coerce_number_hexadecimal :
    ∃ hrange, number.coerce (.string " 0x1F ") = .ok (.number (.integer 31 hrange)) := by
  have hbody : IsTrimOf "0x1F".toList " 0x1F ".toList := by
    rw [isTrimOf_iff]
    decide
  have hvalue : NumericText.TextDenotes " 0x1F " ((31 : ℤ) : ℚ) := by
    have hnatural : naturalOfDigits 16 ['1', 'F'] = 31 := by decide
    refine ⟨_, hbody, ?_⟩
    rw [Int.cast_ofNat, ← Nat.cast_ofNat, ← hnatural]
    exact .based (.hexadecimal (.inl rfl)) (by decide) (List.all_eq_true.1 (by decide))
  exact (coerce_number_text " 0x1F ").2.2.2 31 hvalue (by decide)

end ScalarType

end TypedDocs
