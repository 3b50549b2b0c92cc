import TypedDocs.Proofs.Scalar.Lawful

/-!
# Coercions end in their type and stay there

A coercion to a built-in type leaves `null` and the values of the type alone, and whatever else it
makes is of the type, so that a second coercion changes nothing. None of this depends on which texts
are dates or patterns. An object identifier can be written as a text and read again.
-/

namespace TypedDocs.ScalarType

/-- The hexadecimal digits of either case. -/
def hexDigits : List Char := "0123456789abcdefABCDEF".toList

def lowerCase (s : String) : String := String.ofList (s.toList.map Char.toLower)

theorem accepts_iff {t : ScalarType} {v : Value} :
    t.accepts v = true ↔ v = .null ∨ t.satisfies v = true := by
  rw [accepts, Bool.or_eq_true]
  cases v <;> simp [Value.isNull]

section ObjectIds

variable {s : String}

theorem isObjectIdHex_of_digits (hlength : s.length = 24) (hdigits : ∀ c ∈ s.toList, c ∈ hexDigits) :
    isObjectIdHex s = true := by
  have hall : ∀ c ∈ hexDigits, isDigitOf 16 c = true := List.all_eq_true.1 (by decide)
  rw [isObjectIdHex, Bool.and_eq_true, decide_eq_true_eq, List.all_eq_true, String.length_toList]
  exact ⟨hlength, fun c hc => hall c (hdigits c hc)⟩

theorem objectIdOf_lowerCase (hdigits : ∀ c ∈ s.toList, c ∈ hexDigits) :
    objectIdOf (lowerCase s) = objectIdOf s := by
  have hlower : ∀ c ∈ hexDigits, (c.toLower.toLower == c.toLower) = true :=
    List.all_eq_true.1 (by decide)
  have htwice : (s.toList.map Char.toLower).map Char.toLower = s.toList.map Char.toLower := by
    rw [List.map_map]
    exact List.map_congr_left fun c hc => beq_iff_eq.1 (hlower c (hdigits c hc))
  rw [objectIdOf, objectIdOf, lowerCase, String.toList_ofList, htwice]

theorem coerce_objectId_digits (h : isObjectIdHex s = true) :
    objectId.coerce (.string s) = .ok (objectIdOf s) := by
  have hconvert : objectId.convert (.string s) =
      if isObjectIdHex s then .ok (objectIdOf s) else mismatch (.string s) "ObjectId" := rfl
  rw [coerce, if_neg (by exact Bool.false_ne_true), hconvert, if_pos h]

theorem coerce_string_objectIdOf (h : isObjectIdHex s = true) :
    string.coerce (objectIdOf s) = .ok (.string (lowerCase s)) := by
  have hhex := objectIdHex?_objectIdOf h
  rw [coerce, if_neg (by exact Bool.false_ne_true)]
  unfold objectIdOf at hhex ⊢
  simp only [string, hhex, lowerCase]

end ObjectIds

theorem coerce_boolean_ok (v : Value) : ∃ w, boolean.coerce v = .ok w := by
  cases v <;> exact ⟨_, rfl⟩

/-- Whatever the readers of dates and patterns are, those of the built-in types included, coercion
to a built-in type leaves alone what is `null` or of the type, makes nothing else, changes nothing a
second time, and complains about the value and the type otherwise; a boolean can be made of every
value. An object identifier becomes its digits in lower case, and they become the same object
identifier again. -/
theorem coerce_settled {Moment : Type} (ofText? : String → Option Moment)
    (ofMillis? : Int → Option Moment) (textOf : Moment → String) (isPattern : String → Bool) :
    builtins = builtinsWith Instant.parse? Instant.ofMillis? Instant.text Pattern.isPattern ∧
    (∀ t ∈ builtinsWith ofText? ofMillis? textOf isPattern, ∀ v,
      (v = .null ∨ t.satisfies v = true → t.coerce v = .ok v) ∧
      (∀ w, t.coerce v = .ok w →
        (w = .null ∨ t.satisfies w = true) ∧ t.coerce w = .ok w) ∧
      ∀ e, t.coerce v = .error e → e = .typeMismatch v.literal t.name) ∧
    (∀ v, ∃ w, boolean.coerce v = .ok w) ∧
    ∀ s : String, s.length = 24 → (∀ c ∈ s.toList, c ∈ hexDigits) → ∃ wrapper,
      objectId.coerce (.string s) = .ok wrapper ∧
      string.coerce wrapper = .ok (.string (lowerCase s)) ∧
      objectId.coerce (.string (lowerCase s)) = .ok wrapper := by
  refine ⟨builtins_eq, fun t ht v => ?_, coerce_boolean_ok, fun s hlength hdigits => ?_⟩
  · have hlawful := (isBuiltin_of_mem_builtinsWith ht).lawful
    refine ⟨fun h => coerce_of_accepts (accepts_iff.2 h), fun w h => ⟨?_, ?_⟩, fun e h => ?_⟩
    · exact accepts_iff.1 (hlawful.accepts_of_coerce h)
    · exact hlawful.coerce_coerce h
    · exact hlawful.error_of_coerce h
  · have hhex := isObjectIdHex_of_digits hlength hdigits
    refine ⟨objectIdOf s, coerce_objectId_digits hhex, coerce_string_objectIdOf hhex, ?_⟩
    rw [← objectIdOf_lowerCase hdigits]
    exact coerce_objectId_digits (isObjectIdHex_toLower hhex)

theorem coerce_settled_objectId : ∃ wrapper,
    objectId.coerce (.string "507F1F77BCF86CD799439011") = .ok wrapper ∧
    string.coerce wrapper = .ok (.string (lowerCase "507F1F77BCF86CD799439011")) ∧
    objectId.coerce (.string (lowerCase "507F1F77BCF86CD799439011")) = .ok wrapper := by
  have hdigits : ∀ c ∈ "507F1F77BCF86CD799439011".toList, hexDigits.contains c = true :=
    List.all_eq_true.1 (by decide)
  exact (coerce_settled Instant.parse? Instant.ofMillis? Instant.text Pattern.isPattern).2.2.2
    _ rfl fun c hc => List.contains_iff_mem.1 (hdigits c hc)

end TypedDocs.ScalarType
