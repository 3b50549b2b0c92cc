import Mathlib.Data.List.TakeWhile
import TypedDocs.Json.Node

/-!
# Numerals as they are written

A numeral ends where it cannot go on, so what follows it does not change how it is read, if it
begins with no digit, point or exponent mark. An integer is read back from its text as itself.
For a double that is asked for here, not shown.
-/

namespace TypedDocs

/-- Nothing at the head of the text goes on with a numeral. -/
def EndsNumeral (rest : List Char) : Prop :=
  ∀ c ∈ rest.head?, isDecimalDigit c = false ∧ c ≠ '.' ∧ c ≠ 'e' ∧ c ≠ 'E'

namespace EndsNumeral

theorem nil : EndsNumeral [] := by simp [EndsNumeral]

theorem cons {c : Char} {rest : List Char}
    (h : isDecimalDigit c = false ∧ c ≠ '.' ∧ c ≠ 'e' ∧ c ≠ 'E') : EndsNumeral (c :: rest) := by
  intro d hd
  cases hd
  exact h

end EndsNumeral

section Digits

variable {cs rest : List Char}

theorem spanDigits_append (h : EndsNumeral rest) :
    spanDigits (cs ++ rest) = ((spanDigits cs).1, (spanDigits cs).2 ++ rest) := by
  induction cs with
  | nil =>
    cases rest with
    | nil => rfl
    | cons c rest =>
      have hc : isDecimalDigit c = false := (h c rfl).1
      simp [spanDigits, hc]
  | cons c cs ih =>
    simp only [spanDigits, Prod.mk.injEq] at ih ⊢
    by_cases hc : isDecimalDigit c = true
    · simp [hc, ih.1, ih.2]
    · simp [hc]

theorem spanDigits_of_all (h : ∀ c ∈ cs, isDecimalDigit c = true) : spanDigits cs = (cs, []) := by
  rw [spanDigits, Prod.mk.injEq]
  exact ⟨List.takeWhile_eq_self_iff.2 h, List.dropWhile_eq_nil_iff.2 h⟩

theorem takeSign_append (hcs : cs ≠ []) :
    takeSign (cs ++ rest) = ((takeSign cs).1, (takeSign cs).2 ++ rest) := by
  cases cs with
  | nil => exact absurd rfl hcs
  | cons c cs =>
    by_cases hminus : c = '-'
    · subst hminus
      rfl
    · by_cases hplus : c = '+'
      · subst hplus
        rfl
      · simp [takeSign, hminus, hplus]

end Digits

namespace Node

section Appended

variable {cs rest tail : List Char}

theorem signPart_append (hcs : cs ≠ []) :
    signPart (cs ++ tail) = ((signPart cs).1, (signPart cs).2 ++ tail) := by
  cases cs with
  | nil => exact absurd rfl hcs
  | cons c cs =>
    by_cases hminus : c = '-'
    · subst hminus
      rfl
    · simp [signPart, hminus]

theorem wholePart?_of_ne_zero {c : Char} (hzero : c ≠ '0') : wholePart? (c :: cs) =
    if (spanDigits (c :: cs)).1.isEmpty then none
    else some ((spanDigits (c :: cs)).1, (spanDigits (c :: cs)).2) := by
  rw [wholePart?]
  simpa using hzero

theorem wholePart?_append (htail : EndsNumeral tail) {digits : List Char}
    (h : wholePart? cs = some (digits, rest)) :
    wholePart? (cs ++ tail) = some (digits, rest ++ tail) := by
  cases cs with
  | nil => cases h
  | cons c cs =>
    by_cases hzero : c = '0'
    · subst hzero
      cases h
      rfl
    · rw [wholePart?_of_ne_zero hzero] at h
      rw [List.cons_append, wholePart?_of_ne_zero hzero, ← List.cons_append,
        spanDigits_append htail]
      simp only [Option.ite_none_left_eq_some, Option.some.injEq, Prod.mk.injEq] at h ⊢
      exact ⟨h.1, h.2.1, by rw [h.2.2]⟩

theorem fractionPart?_append (htail : EndsNumeral tail) {digits : List Char}
    (h : fractionPart? cs = some (digits, rest)) :
    fractionPart? (cs ++ tail) = some (digits, rest ++ tail) := by
  cases cs with
  | nil =>
    cases h
    rw [List.nil_append, fractionPart?]
    rintro rest rfl
    exact (htail '.' rfl).2.1 rfl
  | cons c cs =>
    by_cases hpoint : c = '.'
    · subst hpoint
      simp only [fractionPart?, List.cons_append, spanDigits_append htail,
        Option.ite_none_left_eq_some, Option.some.injEq, Prod.mk.injEq] at h ⊢
      exact ⟨h.1, h.2.1, by rw [h.2.2]⟩
    · have hplain : ∀ cs' : List Char, fractionPart? (c :: cs') = some ([], c :: cs') :=
        fun cs' => by
          rw [fractionPart?]
          simpa using hpoint
      rw [hplain] at h
      cases h
      exact hplain (cs ++ tail)

theorem markedPart?_append (htail : EndsNumeral tail) {exponent : Int} {marked : Bool}
    (h : markedPart? cs = some (exponent, marked, rest)) :
    markedPart? (cs ++ tail) = some (exponent, marked, rest ++ tail) := by
  cases cs with
  | nil =>
    cases h
    cases tail with
    | nil => rfl
    | cons c tail =>
      have hc := htail c rfl
      rw [List.nil_append, markedPart?, if_neg (by simp [hc.2.2])]
  | cons c cs =>
    by_cases hmark : c = 'e' ∨ c = 'E'
    · cases cs with
      | nil => simp [markedPart?, hmark, takeSign, spanDigits] at h
      | cons d cs =>
        simp only [markedPart?, List.cons_append, hmark, if_true] at h ⊢
        rw [← List.cons_append, takeSign_append (by simp), spanDigits_append htail]
        simp only [Option.ite_none_left_eq_some, Option.some.injEq, Prod.mk.injEq] at h ⊢
        exact ⟨h.1, h.2.1, h.2.2.1, by rw [h.2.2.2]⟩
    · rw [markedPart?, if_neg hmark] at h
      cases h
      rw [List.cons_append, markedPart?, if_neg hmark]

/-- What follows a numeral and does not go on with it stays unread. -/
theorem numeral?_append (htail : EndsNumeral tail) {numeral : Decimal × Bool}
    (h : numeral? cs = some (numeral, rest)) :
    numeral? (cs ++ tail) = some (numeral, rest ++ tail) := by
  have hcs : cs ≠ [] := by
    rintro rfl
    cases h
  rw [numeral?] at h ⊢
  simp only [Option.bind_eq_bind, Option.bind_eq_some_iff, Option.some.injEq, Prod.mk.injEq, Prod.exists] at h ⊢
  obtain ⟨whole, cs₁, hwhole, fraction, cs₂, hfraction, exponent, marked, cs₃, hmarked, heq, rfl⟩ :=
    h
  rw [signPart_append hcs]
  exact ⟨whole, cs₁ ++ tail, wholePart?_append htail hwhole, fraction, cs₂ ++ tail,
    fractionPart?_append htail hfraction, exponent, marked, cs₃ ++ tail,
    markedPart?_append htail hmarked, heq, rfl⟩

/-- A numeral begins with its sign or a digit. -/
theorem head_of_numeral? {c : Char} {numeral : Decimal × Bool}
    (h : numeral? (c :: cs) = some (numeral, rest)) : c = '-' ∨ isDecimalDigit c = true := by
  by_cases hminus : c = '-'
  · exact .inl hminus
  · right
    have hsign : signPart (c :: cs) = (false, c :: cs) := by simp [signPart, hminus]
    rw [numeral?, hsign] at h
    by_cases hzero : c = '0'
    · subst hzero
      decide
    · cases hc : isDecimalDigit c with
      | true => rfl
      | false =>
        have hnone : wholePart? (c :: cs) = none := by
          rw [wholePart?_of_ne_zero hzero]
          simp [spanDigits, hc]
        simp only [hnone, Option.bind_eq_bind, Option.bind_none, reduceCtorEq] at h

end Appended

section Integers

theorem digitValue_digitChar : ∀ d < 10, digitValue (Nat.digitChar d) = d := by decide

theorem digitChar_ne_zero : ∀ d < 10, d ≠ 0 → Nat.digitChar d ≠ '0' := by decide

theorem isDecimalDigit_of_mem_toDigits {n : Nat} {c : Char} (h : c ∈ Nat.toDigits 10 n) :
    isDecimalDigit c = true :=
  Nat.isDigit_of_mem_toDigits (by decide) (by decide) h

theorem naturalOfDigits_toDigits (n : Nat) : naturalOfDigits 10 (Nat.toDigits 10 n) = n := by
  induction n using Nat.strongRecOn with
  | _ n ih =>
    rw [Nat.toDigits_eq_if (by decide)]
    split
    · rename_i hn
      rw [naturalOfDigits, List.foldl_cons, List.foldl_nil, digitValue_digitChar n hn]
      omega
    · rename_i hn
      have hbefore := ih (n / 10) (by omega)
      rw [naturalOfDigits] at hbefore ⊢
      rw [List.foldl_append, hbefore, List.foldl_cons, List.foldl_nil,
        digitValue_digitChar _ (by omega)]
      omega

/-- Only zero is written with a zero at its head. -/
theorem head_toDigits {n : Nat} (hn : n ≠ 0) : ∃ c cs, Nat.toDigits 10 n = c :: cs ∧ c ≠ '0' := by
  induction n using Nat.strongRecOn with
  | _ n ih =>
    rw [Nat.toDigits_eq_if (by decide)]
    split
    · rename_i hlt
      exact ⟨_, [], rfl, digitChar_ne_zero n hlt hn⟩
    · obtain ⟨c, cs, hdigits, hc⟩ := ih (n / 10) (by omega) (by omega)
      exact ⟨c, cs ++ [_], by rw [hdigits]; rfl, hc⟩

theorem wholePart?_toDigits (n : Nat) :
    wholePart? (Nat.toDigits 10 n) = some (Nat.toDigits 10 n, []) := by
  by_cases hn : n = 0
  · subst hn
    rfl
  · obtain ⟨c, cs, hdigits, hc⟩ := head_toDigits hn
    have hall : ∀ d ∈ c :: cs, isDecimalDigit d = true := fun d hd =>
      isDecimalDigit_of_mem_toDigits (hdigits ▸ hd)
    rw [hdigits, wholePart?]
    · rw [spanDigits_of_all hall]
      rfl
    · simpa using hc

theorem signPart_toDigits (n : Nat) : signPart (Nat.toDigits 10 n) = (false, Nat.toDigits 10 n) := by
  cases hdigits : Nat.toDigits 10 n with
  | nil => rfl
  | cons c cs =>
    have hc : c ≠ '-' := by
      rintro rfl
      have hdigit := isDecimalDigit_of_mem_toDigits (n := n) (c := '-') (by simp [hdigits])
      exact absurd hdigit (by decide)
    simp [signPart, hc]

/-- The digits of a natural number, with or without a sign, are an integer written plainly. -/
theorem numeral?_toDigits (negative : Bool) (n : Nat) :
    numeral? ((if negative then ['-'] else []) ++ Nat.toDigits 10 n) =
      some ((⟨negative, Nat.toDigits 10 n, [], 0⟩, true), []) := by
  have hsign : signPart ((if negative then ['-'] else []) ++ Nat.toDigits 10 n) =
      (negative, Nat.toDigits 10 n) := by
    cases negative with
    | true => rfl
    | false => exact signPart_toDigits n
  rw [numeral?, hsign]
  simp only [wholePart?_toDigits, Option.bind_eq_bind, Option.bind_some]
  rfl

end Integers

end Node

namespace Number

/-- The text of a number is read back as the number. -/
def readsBack (n : Number) : Bool :=
  (Node.numeral? n.text.toList).any fun (numeral, rest) =>
    rest.isEmpty && Node.number? numeral.1 numeral.2 = some n

theorem readsBack_iff {n : Number} : n.readsBack = true ↔ ∃ numeral,
    Node.numeral? n.text.toList = some (numeral, []) ∧
      Node.number? numeral.1 numeral.2 = some n := by
  unfold readsBack
  cases Node.numeral? n.text.toList with
  | none => simp
  | some found =>
    obtain ⟨numeral, rest⟩ := found
    simp only [Option.any_some, Bool.and_eq_true, List.isEmpty_iff, decide_eq_true_eq,
      Option.some.injEq, Prod.mk.injEq]
    constructor
    · rintro ⟨hrest, hnumber⟩
      exact ⟨numeral, ⟨rfl, hrest⟩, hnumber⟩
    · rintro ⟨_, ⟨rfl, hrest⟩, hnumber⟩
      exact ⟨hrest, hnumber⟩

theorem toList_toString_int (n : Int) :
    (toString n).toList = (if n < 0 then ['-'] else []) ++ Nat.toDigits 10 n.natAbs := by
  rw [Int.toString_eq_repr, Int.repr_eq_if]
  by_cases hn : 0 ≤ n
  · have hnat : n.toNat = n.natAbs := by omega
    rw [if_pos hn, if_neg (by omega), hnat, Nat.repr_eq_ofList_toDigits, String.toList_ofList]
    rfl
  · have hnat : (-n).toNat = n.natAbs := by omega
    have hminus : ("-").toList = ['-'] := by rfl
    rw [if_neg hn, if_pos (by omega), hnat, Nat.repr_eq_ofList_toDigits, String.toList_append,
      hminus, String.toList_ofList]

/-- Integers are read back. -/
theorem integer_readsBack (n : Int) (h : InWordRange n) : (integer n h).readsBack = true := by
  have hnumeral := Node.numeral?_toDigits (decide (n < 0)) n.natAbs
  have htext : (integer n h).text.toList =
      (if decide (n < 0) = true then ['-'] else []) ++ Nat.toDigits 10 n.natAbs := by
    simp only [text, decide_eq_true_eq]
    exact toList_toString_int n
  refine readsBack_iff.2 ⟨_, by rw [htext, hnumeral], ?_⟩
  have hcoefficient : (⟨decide (n < 0), Nat.toDigits 10 n.natAbs, [], 0⟩ : Decimal).coefficient =
      n.natAbs := by
    rw [Decimal.coefficient, List.append_nil]
    exact Node.naturalOfDigits_toDigits n.natAbs
  have hback : (if decide (n < 0) = true then -(n.natAbs : Int) else n.natAbs) = n := by
    split
    · rename_i hn
      rw [decide_eq_true_eq] at hn
      omega
    · rename_i hn
      rw [decide_eq_true_eq] at hn
      omega
  have hzero : ¬ ((decide (n < 0) && decide ((n.natAbs : Int) = 0)) = true) := by
    simp only [Bool.and_eq_true, decide_eq_true_eq]
    omega
  simp only [Node.number?, hcoefficient, hback, if_neg hzero, if_true]
  rw [ofInt?, dif_pos h]

end Number

end TypedDocs
