import Mathlib.Data.List.TakeWhile
import TypedDocs.Number.Decimal

/-!
# The grammar of decimal numerals

A decimal numeral is a sign that may be left out, digits with a point before, behind or between
them or none, and an exponent that may be left out. The reader accepts the texts that are put
together in this way and no others, and it finds the parts.
-/

namespace TypedDocs

/-- At least one decimal digit and nothing else. -/
def IsDigits (cs : List Char) : Prop := cs ≠ [] ∧ ∀ c ∈ cs, isDecimalDigit c = true

/-- A sign that may be left out; `true` stands for minus. -/
inductive IsSign : List Char → Bool → Prop
  | absent : IsSign [] false
  | plus : IsSign ['+'] false
  | minus : IsSign ['-'] true

/-- Digits with at most one point, and those before and behind it. -/
inductive IsMantissa : List Char → List Char → List Char → Prop
  | plain {whole : List Char} (hwhole : IsDigits whole) : IsMantissa whole whole []
  | pointed {whole fraction : List Char} (hwhole : IsDigits whole)
      (hfraction : ∀ c ∈ fraction, isDecimalDigit c = true) :
      IsMantissa (whole ++ '.' :: fraction) whole fraction
  | bare {fraction : List Char} (hfraction : IsDigits fraction) :
      IsMantissa ('.' :: fraction) [] fraction

/-- An exponent that may be left out, with its value. -/
inductive IsExponent : List Char → Int → Prop
  | absent : IsExponent [] 0
  | marked {mark : Char} {sign digits : List Char} {negative : Bool} (hmark : mark = 'e' ∨ mark = 'E')
      (hsign : IsSign sign negative) (hdigits : IsDigits digits) :
      IsExponent (mark :: (sign ++ digits))
        (if negative then -(naturalOfDigits 10 digits : Int) else naturalOfDigits 10 digits)

/-- A text is the numeral with these parts. -/
def IsNumeral (cs : List Char) (d : Decimal) : Prop :=
  ∃ sign mantissa exponent, cs = sign ++ (mantissa ++ exponent) ∧ IsSign sign d.negative ∧
    IsMantissa mantissa d.whole d.fraction ∧ IsExponent exponent d.exponent

section Parts

variable {cs rest whole fraction : List Char} {negative : Bool} {exponent : Int} {c : Char}

theorem spanDigits_digits (h : ∀ c ∈ cs, isDecimalDigit c = true)
    (hrest : ∀ c ∈ rest.head?, isDecimalDigit c = false) : spanDigits (cs ++ rest) = (cs, rest) := by
  have hnone : rest.takeWhile isDecimalDigit = [] ∧ rest.dropWhile isDecimalDigit = rest := by
    cases rest with
    | nil => exact ⟨rfl, rfl⟩
    | cons c rest =>
      have hc := hrest c rfl
      simp [hc]
  rw [spanDigits, List.takeWhile_append_of_pos h, List.dropWhile_append_of_pos h, hnone.1, hnone.2,
    List.append_nil]

theorem spanDigits_split (cs : List Char) : cs = (spanDigits cs).1 ++ (spanDigits cs).2 :=
  List.takeWhile_append_dropWhile.symm

theorem isDecimalDigit_of_mem_spanDigits (h : c ∈ (spanDigits cs).1) : isDecimalDigit c = true :=
  List.mem_takeWhile_imp h

theorem takeSign_of_isSign {sign : List Char} (h : IsSign sign negative)
    (hrest : ∀ c ∈ rest.head?, c ≠ '-' ∧ c ≠ '+') : takeSign (sign ++ rest) = (negative, rest) := by
  cases h with
  | absent =>
    cases rest with
    | nil => rfl
    | cons c rest =>
      obtain ⟨hminus, hplus⟩ := hrest c rfl
      simp [takeSign, hminus, hplus]
  | plus => rfl
  | minus => rfl

theorem isSign_takeSign (cs : List Char) :
    ∃ sign, cs = sign ++ (takeSign cs).2 ∧ IsSign sign (takeSign cs).1 := by
  unfold takeSign
  split
  · exact ⟨['-'], rfl, .minus⟩
  · exact ⟨['+'], rfl, .plus⟩
  · exact ⟨[], rfl, .absent⟩

theorem not_sign_of_digit (h : isDecimalDigit c = true) : c ≠ '-' ∧ c ≠ '+' := by
  constructor
  · rintro rfl
    cases h
  · rintro rfl
    cases h

theorem IsDigits.head (h : IsDigits cs) : ∃ c tail, cs = c :: tail ∧ isDecimalDigit c = true := by
  cases cs with
  | nil => exact absurd rfl h.1
  | cons c tail => exact ⟨c, tail, rfl, h.2 c List.mem_cons_self⟩

theorem exponentPart?_eq_some_iff : exponentPart? cs = some exponent ↔ IsExponent cs exponent := by
  constructor
  · intro h
    cases cs with
    | nil =>
      cases h
      exact .absent
    | cons mark rest =>
      rw [exponentPart?] at h
      split at h
      · rename_i hmark
        obtain ⟨sign, hrest, hsign⟩ := isSign_takeSign rest
        generalize takeSign rest = signed at h hrest hsign
        simp only [Option.ite_none_left_eq_some, Bool.or_eq_true, Bool.not_eq_true', not_or,
          List.isEmpty_iff, Bool.not_eq_false, List.all_eq_true, Option.some.injEq] at h
        obtain ⟨⟨hne, hall⟩, rfl⟩ := h
        rw [hrest]
        exact .marked hmark hsign ⟨hne, hall⟩
      · cases h
  · intro h
    cases h with
    | absent => rfl
    | @marked mark sign digits negative hmark hsign hdigits =>
      have hhead : ∀ c ∈ digits.head?, c ≠ '-' ∧ c ≠ '+' := fun c hc =>
        not_sign_of_digit (hdigits.2 c (List.mem_of_mem_head? hc))
      have hread : (digits.isEmpty || !digits.all isDecimalDigit) = false := by
        simp [hdigits.1, List.all_eq_true.2 hdigits.2]
      rw [exponentPart?, if_pos hmark, takeSign_of_isSign hsign hhead]
      simp only [hread, Bool.false_eq_true, if_false]

/-- What can follow the digits of a numeral. -/
theorem IsExponent.head (h : IsExponent cs exponent) :
    ∀ c ∈ cs.head?, isDecimalDigit c = false ∧ c ≠ '.' := by
  cases h with
  | absent => simp
  | marked hmark hsign hdigits =>
    intro c hc
    cases hc
    rcases hmark with rfl | rfl <;> exact ⟨by decide, by decide⟩

/-- The digits behind a point, if there is one, and what follows them. -/
def fractionDigits : List Char → List Char × List Char
  | '.' :: rest => spanDigits rest
  | rest => ([], rest)

theorem fractionDigits_of_no_point (h : ∀ c ∈ cs.head?, c ≠ '.') : fractionDigits cs = ([], cs) := by
  cases cs with
  | nil => rfl
  | cons c rest => simp [fractionDigits, h c rfl]

theorem Decimal.parse?_eq (cs : List Char) : parse? cs =
    let unsigned := (takeSign cs).2
    let afterWhole := (spanDigits unsigned).2
    if (spanDigits unsigned).1.isEmpty && (fractionDigits afterWhole).1.isEmpty then none
    else (exponentPart? (fractionDigits afterWhole).2).map fun e =>
      ⟨(takeSign cs).1, (spanDigits unsigned).1, (fractionDigits afterWhole).1, e⟩ := rfl

/-- What has been split off is a mantissa if there is a digit in it. -/
theorem isMantissa_of_split
    (h : ¬ ((spanDigits cs).1.isEmpty && (fractionDigits (spanDigits cs).2).1.isEmpty) = true) :
    ∃ mantissa, cs = mantissa ++ (fractionDigits (spanDigits cs).2).2 ∧
      IsMantissa mantissa (spanDigits cs).1 (fractionDigits (spanDigits cs).2).1 := by
  have hwhole := spanDigits_split cs
  have hdigits : ∀ c ∈ (spanDigits cs).1, isDecimalDigit c = true :=
    fun c => isDecimalDigit_of_mem_spanDigits
  simp only [Bool.and_eq_true, List.isEmpty_iff, not_and] at h
  generalize spanDigits cs = split at h hwhole hdigits ⊢
  obtain ⟨whole, afterWhole⟩ := split
  simp only at h hwhole hdigits ⊢
  by_cases hpoint : ∃ rest, afterWhole = '.' :: rest
  · obtain ⟨rest, rfl⟩ := hpoint
    have hfraction := spanDigits_split rest
    have hfractionDigits : ∀ c ∈ (spanDigits rest).1, isDecimalDigit c = true :=
      fun c => isDecimalDigit_of_mem_spanDigits
    simp only [fractionDigits] at h ⊢
    by_cases hempty : whole = []
    · subst hempty
      refine ⟨'.' :: (spanDigits rest).1, ?_, .bare ⟨h rfl, hfractionDigits⟩⟩
      rw [hwhole, List.nil_append, List.cons_append, ← hfraction]
    · refine ⟨whole ++ '.' :: (spanDigits rest).1, ?_, .pointed ⟨hempty, hdigits⟩ hfractionDigits⟩
      rw [hwhole, List.append_assoc, List.cons_append, ← hfraction]
  · have hnone : fractionDigits afterWhole = ([], afterWhole) := by
      refine fractionDigits_of_no_point fun c hc hdot => hpoint ?_
      cases afterWhole with
      | nil => cases hc
      | cons d rest => exact ⟨rest, by cases hc; rw [hdot]⟩
    rw [hnone] at h ⊢
    exact ⟨whole, hwhole, .plain ⟨fun hempty => h hempty rfl, hdigits⟩⟩

/-- A mantissa is split off as it was put together. -/
theorem split_of_isMantissa {mantissa : List Char} (h : IsMantissa mantissa whole fraction)
    (hrest : ∀ c ∈ rest.head?, isDecimalDigit c = false ∧ c ≠ '.') :
    (∃ afterWhole, spanDigits (mantissa ++ rest) = (whole, afterWhole) ∧
      fractionDigits afterWhole = (fraction, rest)) ∧
    ¬ (whole.isEmpty && fraction.isEmpty) = true ∧
    ∀ c ∈ (mantissa ++ rest).head?, c ≠ '-' ∧ c ≠ '+' := by
  have hnodigit : ∀ c ∈ rest.head?, isDecimalDigit c = false := fun c hc => (hrest c hc).1
  cases h with
  | plain hwhole =>
    obtain ⟨c, tail, htext, hc⟩ := hwhole.head
    refine ⟨⟨rest, spanDigits_digits hwhole.2 hnodigit,
      fractionDigits_of_no_point fun c hc => (hrest c hc).2⟩, by simp [hwhole.1], ?_⟩
    rw [htext]
    intro d hd
    cases hd
    exact not_sign_of_digit hc
  | pointed hwhole hfraction =>
    obtain ⟨c, tail, htext, hc⟩ := hwhole.head
    have hdot : ∀ c ∈ ('.' :: (fraction ++ rest)).head?, isDecimalDigit c = false := by
      intro c hc
      cases hc
      rfl
    refine ⟨⟨'.' :: (fraction ++ rest), ?_, spanDigits_digits hfraction hnodigit⟩,
      by simp [hwhole.1], ?_⟩
    · rw [List.append_assoc]
      exact spanDigits_digits hwhole.2 hdot
    · rw [htext]
      intro d hd
      cases hd
      exact not_sign_of_digit hc
  | bare hfraction =>
    refine ⟨⟨'.' :: (fraction ++ rest), rfl, spanDigits_digits hfraction.2 hnodigit⟩,
      by simp [hfraction.1], ?_⟩
    intro d hd
    cases hd
    exact ⟨by decide, by decide⟩

end Parts

/-- The reader accepts the numerals and finds their parts. -/
theorem Decimal.parse?_eq_some_iff {cs : List Char} {d : Decimal} :
    parse? cs = some d ↔ IsNumeral cs d := by
  rw [parse?_eq]
  constructor
  · intro h
    obtain ⟨sign, hcs, hsign⟩ := isSign_takeSign cs
    simp only [Option.ite_none_left_eq_some, Option.map_eq_some_iff] at h
    obtain ⟨hany, e, he, rfl⟩ := h
    obtain ⟨mantissa, hunsigned, hmantissa⟩ := isMantissa_of_split hany
    refine ⟨sign, mantissa, _, ?_, hsign, hmantissa, exponentPart?_eq_some_iff.1 he⟩
    rw [← hunsigned, ← hcs]
  · rintro ⟨sign, mantissa, exponent, rfl, hsign, hmantissa, hexponent⟩
    obtain ⟨⟨afterWhole, hwhole, hfraction⟩, hany, hhead⟩ :=
      split_of_isMantissa hmantissa hexponent.head
    rw [takeSign_of_isSign hsign hhead]
    simp only [hwhole, hfraction, if_neg hany, exponentPart?_eq_some_iff.2 hexponent,
      Option.map_some]

end TypedDocs
