import TypedDocs.Scalar.Registry

/-!
# Laws of the built-in scalar types

A scalar type is lawful if a conversion that succeeds ends in the type, and a
conversion that fails complains about the very value and the very type. Nothing is
said about which values convert. All built-in types are lawful, whatever texts are
read as dates and patterns, so a coercion repeated on its own result changes nothing.
-/

namespace TypedDocs

theorem digitValue_toLower (c : Char) : digitValue c.toLower = digitValue c := by
  unfold Char.toLower
  split
  · rename_i h
    obtain ⟨hl, hu⟩ := h
    have hA : 65 ≤ c.toNat := hl
    have hZ : c.toNat ≤ 90 := hu
    have hlow : (c.val + ('a'.val - 'A'.val)).toNat = c.toNat + 32 := by
      rw [UInt32.toNat_add]
      change (c.toNat + 32) % 4294967296 = c.toNat + 32
      omega
    simp only [digitValue, Char.le_def, UInt32.le_iff_toNat_le, Char.toNat]
    rw [hlow]
    change (if 48 ≤ c.toNat + 32 ∧ c.toNat + 32 ≤ 57 then _ else
      if 97 ≤ c.toNat + 32 ∧ c.toNat + 32 ≤ 122 then c.toNat + 32 - 97 + 10 else _) =
      (if 48 ≤ c.toNat ∧ c.toNat ≤ 57 then _ else
      if 97 ≤ c.toNat ∧ c.toNat ≤ 122 then _ else
      if 65 ≤ c.toNat ∧ c.toNat ≤ 90 then c.toNat - 65 + 10 else _)
    rw [if_neg (by omega), if_pos (by omega), if_neg (by omega), if_neg (by omega),
      if_pos (by omega)]
    omega
  · rfl

namespace ScalarType

/-- Conversions end in the type, and failures name the value and the type. -/
structure Lawful (t : ScalarType) : Prop where
  accepts_of_convert : ∀ {v w : Value}, t.convert v = .ok w → t.accepts w = true
  error_of_convert : ∀ {v : Value} {e : CastError}, t.convert v = .error e → e = .ofType v t.name

section Laws

variable {t : ScalarType} {v w : Value} {e : CastError}

theorem Lawful.accepts_of_coerce (ht : t.Lawful) (h : t.coerce v = .ok w) :
    t.accepts w = true := by
  unfold coerce at h
  split at h
  · rename_i ha
    obtain rfl := Except.ok.inj h
    exact ha
  · exact ht.accepts_of_convert h

/-- A second coercion has nothing left to do. -/
theorem Lawful.coerce_coerce (ht : t.Lawful) (h : t.coerce v = .ok w) : t.coerce w = .ok w :=
  coerce_of_accepts (ht.accepts_of_coerce h)

theorem not_accepts_of_error (h : t.coerce v = .error e) : t.accepts v = false := by
  unfold coerce at h
  split at h
  · cases h
  · rename_i ha
    simpa using ha

theorem Lawful.error_of_coerce (ht : t.Lawful) (h : t.coerce v = .error e) :
    e = .ofType v t.name := by
  have ha := not_accepts_of_error h
  rw [coerce, if_neg (by simp [ha])] at h
  exact ht.error_of_convert h

end Laws

/-- A type is lawful if its conversions make values of the type and its failures are about it. -/
theorem lawful_of_satisfies {t : ScalarType}
    (hsatisfies : ∀ {v w : Value}, t.convert v = .ok w → t.satisfies w = true)
    (herror : ∀ {v : Value} {e : CastError}, t.convert v = .error e → e = .ofType v t.name) :
    t.Lawful where
  accepts_of_convert h := by rw [accepts, hsatisfies h, Bool.or_true]
  error_of_convert h := herror h

section Conversions

variable {v w : Value} {e : CastError}

theorem satisfies_of_convert_string (h : string.convert v = .ok w) :
    string.satisfies w = true := by
  simp only [string] at h
  split at h
  · cases h; rfl
  · cases h; rfl
  · cases h; rfl
  · split at h
    · cases h; rfl
    · cases h

theorem error_of_convert_string (h : string.convert v = .error e) : e = .ofType v "String" := by
  simp only [string] at h
  split at h
  · cases h
  · cases h
  · cases h
  · split at h
    · cases h
    · cases h; rfl

theorem satisfies_of_convert_number (h : number.convert v = .ok w) :
    number.satisfies w = true := by
  simp only [number] at h
  split at h
  · cases h; rfl
  · cases h

theorem error_of_convert_number (h : number.convert v = .error e) : e = .ofType v "Number" := by
  simp only [number] at h
  split at h
  · cases h
  · cases h; rfl

theorem satisfies_of_convert_boolean (h : boolean.convert v = .ok w) :
    boolean.satisfies w = true := by
  cases v <;> (cases h; rfl)

theorem isObjectIdHex_toLower {s : String} (h : isObjectIdHex s = true) :
    isObjectIdHex (String.ofList (s.toList.map Char.toLower)) = true := by
  simp only [isObjectIdHex, Bool.and_eq_true, decide_eq_true_eq, List.all_eq_true] at h ⊢
  obtain ⟨hlen, hall⟩ := h
  rw [String.toList_ofList]
  refine ⟨by rw [List.length_map, hlen], ?_⟩
  intro c hc
  obtain ⟨d, hd, rfl⟩ := List.mem_map.1 hc
  have hdigit := hall d hd
  rwa [isDigitOf, digitValue_toLower]

theorem objectIdHex?_objectIdOf {s : String} (h : isObjectIdHex s = true) :
    objectIdHex? (objectIdOf s) = some (String.ofList (s.toList.map Char.toLower)) := by
  simp [objectIdHex?, objectIdOf, Value.onlyField?, isObjectIdHex_toLower h]

theorem satisfies_of_convert_objectId (h : objectId.convert v = .ok w) :
    objectId.satisfies w = true := by
  simp only [objectId] at h
  split at h
  · split at h
    · rename_i hs
      cases h
      simp [objectId, objectIdHex?_objectIdOf hs]
    · cases h
  · cases h

theorem error_of_convert_objectId (h : objectId.convert v = .error e) :
    e = .ofType v "ObjectId" := by
  simp only [objectId] at h
  split at h
  · split at h
    · cases h
    · cases h; rfl
  · cases h; rfl

end Conversions

theorem lawful_string : string.Lawful :=
  lawful_of_satisfies satisfies_of_convert_string error_of_convert_string

theorem lawful_number : number.Lawful :=
  lawful_of_satisfies satisfies_of_convert_number error_of_convert_number

theorem lawful_boolean : boolean.Lawful :=
  lawful_of_satisfies satisfies_of_convert_boolean fun {v e} h => by cases v <;> cases h

theorem lawful_objectId : objectId.Lawful :=
  lawful_of_satisfies satisfies_of_convert_objectId error_of_convert_objectId

section Readers

variable {Moment : Type} (ofText? : String → Option Moment) (ofMillis? : Int → Option Moment)
  (textOf : Moment → String) (isPattern : String → Bool)

/-- What a value stands for, if texts and milliseconds are read in this way. -/
def momentOf? : Value → Option Moment
  | .string s => ofText? s
  | .number (.integer n _) => if n < 9223372036854775808 then ofMillis? n else none
  | _ => none

/-- Dates, whatever texts and milliseconds are read as dates and however a date is written. -/
def dateWith : ScalarType where
  name := "Date"
  satisfies := date.satisfies
  convert v := match momentOf? ofText? ofMillis? v with
    | some moment => .ok (.object [("$date", .string (textOf moment))])
    | none => mismatch v "Date"

/-- Regular expressions, whatever texts are patterns. -/
def regexpWith : ScalarType where
  name := "RegExp"
  satisfies := regexp.satisfies
  convert v := match patternText? v with
    | some text =>
      if isPattern text then
        .ok (.object [("$regularExpression",
          .object [("pattern", .string text), ("options", .string "")])])
      else mismatch v "RegExp"
    | none => mismatch v "RegExp"

/-- The built-in scalar types over readers of dates and patterns that are left open. -/
def builtinsWith : List ScalarType :=
  [string, number, boolean, objectId, dateWith ofText? ofMillis? textOf, regexpWith isPattern]

theorem instantOf?_eq : instantOf? = momentOf? Instant.parse? Instant.ofMillis? := rfl

theorem date_eq : date = dateWith Instant.parse? Instant.ofMillis? Instant.text := by
  have hconvert : date.convert =
      (dateWith Instant.parse? Instant.ofMillis? Instant.text).convert := by
    funext v
    simp only [date, dateWith, ← instantOf?_eq]
    cases instantOf? v <;> rfl
  exact congrArg (fun convert => { date with convert := convert }) hconvert

theorem builtins_eq :
    builtins = builtinsWith Instant.parse? Instant.ofMillis? Instant.text Pattern.isPattern := by
  rw [builtinsWith, ← date_eq]
  rfl

variable {ofText? ofMillis? textOf isPattern} {v w : Value}

theorem satisfies_of_convert_dateWith (h : (dateWith ofText? ofMillis? textOf).convert v = .ok w) :
    (dateWith ofText? ofMillis? textOf).satisfies w = true := by
  simp only [dateWith] at h
  split at h
  · cases h
    simp [dateWith, date, Value.onlyField?]
  · cases h

theorem lawful_dateWith : (dateWith ofText? ofMillis? textOf).Lawful :=
  lawful_of_satisfies satisfies_of_convert_dateWith fun h => by
    simp only [dateWith] at h
    split at h
    · cases h
    · cases h; rfl

theorem satisfies_of_convert_regexpWith (h : (regexpWith isPattern).convert v = .ok w) :
    (regexpWith isPattern).satisfies w = true := by
  simp only [regexpWith] at h
  split at h
  · split at h
    · cases h
      simp [regexpWith, regexp, Value.onlyField?, Value.isObject]
    · cases h
  · cases h

theorem lawful_regexpWith : (regexpWith isPattern).Lawful :=
  lawful_of_satisfies satisfies_of_convert_regexpWith fun h => by
    simp only [regexpWith] at h
    split at h
    · split at h
      · cases h
      · cases h; rfl
    · cases h; rfl

end Readers

theorem lawful_regexp : regexp.Lawful := lawful_regexpWith

/-- The scalar type is a built-in one over some readers of dates and patterns. -/
inductive IsBuiltin : ScalarType → Prop
  | string : IsBuiltin string
  | number : IsBuiltin number
  | boolean : IsBuiltin boolean
  | objectId : IsBuiltin objectId
  | date {Moment : Type} (ofText? : String → Option Moment) (ofMillis? : Int → Option Moment)
      (textOf : Moment → String) : IsBuiltin (dateWith ofText? ofMillis? textOf)
  | regexp (isPattern : String → Bool) : IsBuiltin (regexpWith isPattern)

theorem isBuiltin_of_mem_builtinsWith {Moment : Type} {ofText? : String → Option Moment}
    {ofMillis? : Int → Option Moment} {textOf : Moment → String} {isPattern : String → Bool}
    {t : ScalarType} (h : t ∈ builtinsWith ofText? ofMillis? textOf isPattern) : t.IsBuiltin := by
  simp only [builtinsWith, List.mem_cons, List.not_mem_nil, or_false] at h
  rcases h with rfl | rfl | rfl | rfl | rfl | rfl
  · exact .string
  · exact .number
  · exact .boolean
  · exact .objectId
  · exact .date ofText? ofMillis? textOf
  · exact .regexp isPattern

theorem isBuiltin_of_mem_builtins {t : ScalarType} (h : t ∈ builtins) : t.IsBuiltin :=
  isBuiltin_of_mem_builtinsWith (builtins_eq ▸ h)

namespace IsBuiltin

variable {t : ScalarType} {v w : Value}

/-- Every built-in type is lawful, whatever the readers are. -/
theorem lawful (ht : t.IsBuiltin) : t.Lawful := by
  cases ht with
  | string => exact lawful_string
  | number => exact lawful_number
  | boolean => exact lawful_boolean
  | objectId => exact lawful_objectId
  | date => exact lawful_dateWith
  | regexp => exact lawful_regexpWith

theorem satisfies_of_convert (ht : t.IsBuiltin) (h : t.convert v = .ok w) :
    t.satisfies w = true := by
  cases ht with
  | string => exact satisfies_of_convert_string h
  | number => exact satisfies_of_convert_number h
  | boolean => exact satisfies_of_convert_boolean h
  | objectId => exact satisfies_of_convert_objectId h
  | date => exact satisfies_of_convert_dateWith h
  | regexp => exact satisfies_of_convert_regexpWith h

end IsBuiltin

end ScalarType

/-- The fixed types of element operators are built in. -/
theorem ElementSelector.lawful_operandType (selector : ElementSelector) :
    selector.operandType.Lawful := by
  cases selector with
  | existence => exact ScalarType.lawful_boolean
  | type => exact ScalarType.lawful_number
  | size => exact ScalarType.lawful_number
  | regex => exact ScalarType.lawful_regexp

end TypedDocs
