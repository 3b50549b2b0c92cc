import TypedDocs.Json.Literal
import TypedDocs.Proofs.Json.Numerals

/-!
# Literals are read back and stand on one line

A quoted text ends at the first delimiter that no backslash escapes, whichever of the three
delimiters it has, and the text is what its escapes stand for. So no quoted text is that of another
text, and none goes on where another one ends. No literal of a value has a line break or a tab in
it: in strings and in field names they are escaped, and nothing else that is shown has any.
-/

namespace TypedDocs

/-- The characters that a text can stand between. -/
def delimiters : List Char := ['\'', '"', '\x60']

/-- The letters of the escapes between two delimiters, and the characters they stand for. -/
def literalEscapes (delim : Char) : List (Char × Char) :=
  [('\\', '\\'), ('n', '\n'), ('t', '\t'), ('r', '\r'), (delim, delim)]

/-- A text with its escapes undone, if each backslash begins an escape. -/
def unescape? (delim : Char) : List Char → Option (List Char)
  | [] => some []
  | '\\' :: e :: rest => do
    let c ← (literalEscapes delim).lookup e
    let cs ← unescape? delim rest
    some (c :: cs)
  | c :: rest => if c = '\\' then none else (unescape? delim rest).map (c :: ·)

/-- Whether a text ends in a backslash that is not escaped itself, so that the next character is. -/
def escapesNext (cs : List Char) : Bool :=
  cs.foldl (fun escaping c => !escaping && c = '\\') false

/-- The delimiter stands in a text only where it is escaped. -/
def OnlyEscaped (delim : Char) (body : List Char) : Prop :=
  ∀ before after, body = before ++ delim :: after → escapesNext before = true

/-- Line breaks and tabs. -/
def lineChars : List Char := ['\n', '\r', '\t']

def IsOneLine (s : String) : Prop := ∀ c ∈ s.toList, c ∉ lineChars

instance (s : String) : Decidable (IsOneLine s) := List.decidableBAll (· ∉ lineChars) s.toList

section Delimiters

variable {delim : Char}

theorem delimiter_mem (cs : List Char) : delimiter cs ∈ delimiters := by
  rw [delimiter]
  split
  · decide
  · split
    · decide
    · split
      · decide
      · decide

theorem ne_backslash_of_mem (h : delim ∈ delimiters) : delim ≠ '\\' := by
  rintro rfl
  exact absurd h (by decide)

theorem lookup_of_mem (hdelim : delim ∈ delimiters) {p : Char × Char}
    (hp : p ∈ literalEscapes delim) : (literalEscapes delim).lookup p.1 = some p.2 := by
  have hall : (delimiters.all fun delim => (literalEscapes delim).all fun p =>
      (literalEscapes delim).lookup p.1 = some p.2) = true := by decide
  have hescapes := List.all_eq_true.1 hall delim hdelim
  exact of_decide_eq_true (List.all_eq_true.1 hescapes p hp)

/-- A character is escaped by a letter, or it stands for itself. -/
theorem quotedChar_cases (delim c : Char) :
    (∃ e, (e, c) ∈ literalEscapes delim ∧ quotedChar delim c = ['\\', e]) ∨
      (c ≠ '\\' ∧ c ∉ lineChars ∧ c ≠ delim ∧ quotedChar delim c = [c]) := by
  by_cases hslash : c = '\\'
  · subst hslash
    exact .inl ⟨'\\', by simp [literalEscapes], rfl⟩
  by_cases hn : c = '\n'
  · subst hn
    exact .inl ⟨'n', by simp [literalEscapes], rfl⟩
  by_cases ht : c = '\t'
  · subst ht
    exact .inl ⟨'t', by simp [literalEscapes], rfl⟩
  by_cases hr : c = '\r'
  · subst hr
    exact .inl ⟨'r', by simp [literalEscapes], rfl⟩
  by_cases hdelim : c = delim
  · refine .inl ⟨c, by simp [literalEscapes, hdelim], ?_⟩
    rw [quotedChar, if_neg hslash, if_neg hn, if_neg ht, if_neg hr, if_pos hdelim]
  · refine .inr ⟨hslash, by simp [lineChars, hn, hr, ht], hdelim, ?_⟩
    rw [quotedChar, if_neg hslash, if_neg hn, if_neg ht, if_neg hr, if_neg hdelim]

end Delimiters

section Escapes

variable {delim : Char} {xs ys : List Char}

theorem escapesNext_append (h : escapesNext xs = false) :
    escapesNext (xs ++ ys) = escapesNext ys := by
  rw [escapesNext] at h
  rw [escapesNext, List.foldl_append, h, escapesNext]

theorem escapesNext_quotedChar (delim c : Char) : escapesNext (quotedChar delim c) = false := by
  rcases quotedChar_cases delim c with ⟨e, -, htext⟩ | ⟨hslash, -, -, htext⟩
  · rw [htext]
    rfl
  · rw [htext]
    simp [escapesNext, hslash]

theorem onlyEscaped_quotedChar (hdelim : delim ∈ delimiters) (c : Char) :
    OnlyEscaped delim (quotedChar delim c) := by
  intro before after hsplit
  rcases quotedChar_cases delim c with ⟨e, -, htext⟩ | ⟨-, -, hplain, htext⟩
  · rw [htext] at hsplit
    cases before with
    | nil => exact absurd (List.cons.inj hsplit).1.symm (ne_backslash_of_mem hdelim)
    | cons first before =>
      obtain ⟨rfl, hrest⟩ := List.cons.inj hsplit
      cases before with
      | nil => rfl
      | cons second before => simp at hrest
  · rw [htext] at hsplit
    cases before with
    | nil => exact absurd (List.cons.inj hsplit).1 hplain
    | cons first before => simp at hsplit

theorem OnlyEscaped.nil : OnlyEscaped delim [] := by
  intro before after hsplit
  simp at hsplit

theorem OnlyEscaped.append (hxs : OnlyEscaped delim xs) (hends : escapesNext xs = false)
    (hys : OnlyEscaped delim ys) : OnlyEscaped delim (xs ++ ys) := by
  intro before after hsplit
  -- The delimiter stands in the second part, or else in the first one.
  rcases List.append_eq_append_iff.1 hsplit with ⟨middle, rfl, hmiddle⟩ | ⟨middle, rfl, hmiddle⟩
  · rw [escapesNext_append hends]
    exact hys middle after hmiddle
  · cases middle with
    | nil =>
      have hnone : escapesNext [] = true := hys [] after hmiddle.symm
      cases hnone
    | cons d middle =>
      obtain ⟨rfl, -⟩ := List.cons.inj hmiddle
      exact hxs before middle rfl

theorem escapesNext_body (delim : Char) (cs : List Char) :
    escapesNext (cs.flatMap (quotedChar delim)) = false := by
  induction cs with
  | nil => rfl
  | cons c cs ih => rw [List.flatMap_cons, escapesNext_append (escapesNext_quotedChar delim c), ih]

theorem onlyEscaped_body (hdelim : delim ∈ delimiters) (cs : List Char) :
    OnlyEscaped delim (cs.flatMap (quotedChar delim)) := by
  induction cs with
  | nil => exact .nil
  | cons c cs ih =>
    rw [List.flatMap_cons]
    exact (onlyEscaped_quotedChar hdelim c).append (escapesNext_quotedChar delim c) ih

theorem unescape?_quotedChar (hdelim : delim ∈ delimiters) (c : Char) (rest : List Char) :
    unescape? delim (quotedChar delim c ++ rest) = (unescape? delim rest).map (c :: ·) := by
  rcases quotedChar_cases delim c with ⟨e, hescape, htext⟩ | ⟨hslash, -, -, htext⟩
  · rw [htext, List.cons_append, List.cons_append, List.nil_append, unescape?,
      lookup_of_mem hdelim hescape]
    cases unescape? delim rest <;> rfl
  · rw [htext, List.cons_append, List.nil_append, unescape?, if_neg hslash]
    exact fun _ _ heq _ => hslash heq

/-- The escapes of a text stand for the text. -/
theorem unescape?_body (hdelim : delim ∈ delimiters) (cs : List Char) :
    unescape? delim (cs.flatMap (quotedChar delim)) = some cs := by
  induction cs with
  | nil => rw [List.flatMap_nil, unescape?]
  | cons c cs ih => rw [List.flatMap_cons, unescape?_quotedChar hdelim, ih, Option.map_some]

/-- Two texts that end at the same unescaped delimiter are the same. -/
theorem OnlyEscaped.eq_of_append {x y : List Char} (hxs : OnlyEscaped delim xs)
    (hxends : escapesNext xs = false) (hys : OnlyEscaped delim ys)
    (hyends : escapesNext ys = false) (h : xs ++ delim :: x = ys ++ delim :: y) :
    xs = ys ∧ x = y := by
  -- If one of them were longer, the delimiter that ends the other would stand in it unescaped.
  rcases List.append_eq_append_iff.1 h with ⟨middle, rfl, hmiddle⟩ | ⟨middle, rfl, hmiddle⟩
  · cases middle with
    | nil => simpa using hmiddle
    | cons d middle =>
      obtain ⟨rfl, -⟩ := List.cons.inj hmiddle
      rw [hys xs middle rfl] at hxends
      cases hxends
  · cases middle with
    | nil => simpa using hmiddle.symm
    | cons d middle =>
      obtain ⟨rfl, -⟩ := List.cons.inj hmiddle
      rw [hxs ys middle rfl] at hyends
      cases hyends

end Escapes

section Quotes

variable {s t : String}

/-- What stands between the delimiters of a quoted text. -/
def quoteBody (s : String) : List Char := s.toList.flatMap (quotedChar (delimiter s.toList))

theorem toList_quote (s : String) :
    (quote s).toList = delimiter s.toList :: (quoteBody s ++ [delimiter s.toList]) := by
  rw [quote, String.toList_ofList, quoteChars]
  rfl

theorem onlyEscaped_quoteBody (s : String) : OnlyEscaped (delimiter s.toList) (quoteBody s) :=
  onlyEscaped_body (delimiter_mem _) _

theorem escapesNext_quoteBody (s : String) : escapesNext (quoteBody s) = false :=
  escapesNext_body _ _

theorem unescape?_quoteBody (s : String) :
    unescape? (delimiter s.toList) (quoteBody s) = some s.toList :=
  unescape?_body (delimiter_mem _) _

/-- A quoted text ends where it ends, whatever follows. -/
theorem quote_append_inj {x y : String} (h : quote s ++ x = quote t ++ y) : s = t ∧ x = y := by
  have hchars := congrArg String.toList h
  rw [String.toList_append, String.toList_append, toList_quote, toList_quote, List.cons_append,
    List.cons_append, List.append_assoc, List.append_assoc] at hchars
  obtain ⟨hdelim, hrest⟩ := List.cons.inj hchars
  have honly := onlyEscaped_quoteBody t
  rw [← hdelim] at hrest honly
  obtain ⟨hbody, hxy⟩ := (onlyEscaped_quoteBody s).eq_of_append (escapesNext_quoteBody s) honly
    (escapesNext_quoteBody t) hrest
  have hs := unescape?_quoteBody s
  rw [hdelim, hbody, unescape?_quoteBody t] at hs
  exact ⟨(String.toList_inj.1 (Option.some.inj hs)).symm, String.toList_inj.1 hxy⟩

end Quotes

section Lines

variable {s t : String} {cs : List Char}

/-- A class of characters has no line character if none of the three belongs to it. -/
theorem not_lineChar_of {p : Char → Bool} {c : Char} (hnone : lineChars.any p = false)
    (h : p c = true) : c ∉ lineChars :=
  fun hline => List.any_eq_false.1 hnone c hline h

theorem IsOneLine.append (hs : IsOneLine s) (ht : IsOneLine t) : IsOneLine (s ++ t) := by
  intro c hc
  rw [String.toList_append, List.mem_append] at hc
  rcases hc with hc | hc
  · exact hs c hc
  · exact ht c hc

theorem IsOneLine.ofList (h : ∀ c ∈ cs, c ∉ lineChars) : IsOneLine (String.ofList cs) := by
  intro c hc
  rw [String.toList_ofList] at hc
  exact h c hc

theorem IsOneLine.intercalate {parts : List String} (hs : IsOneLine s)
    (hparts : ∀ part ∈ parts, IsOneLine part) : IsOneLine (String.intercalate s parts) := by
  induction parts with
  | nil => exact fun c hc => by simp at hc
  | cons part parts ih =>
    obtain ⟨hpart, hrest⟩ := List.forall_mem_cons.1 hparts
    cases parts with
    | nil =>
      rw [String.intercalate_singleton]
      exact hpart
    | cons next parts =>
      rw [String.intercalate_cons_cons]
      exact (hpart.append hs).append (ih hrest)

end Lines

section Numbers

variable {digits : List Char}

theorem not_lineChar_of_digit {c : Char} (h : isDecimalDigit c = true) : c ∉ lineChars :=
  not_lineChar_of (by decide) h

theorem isOneLine_digits (h : ∀ c ∈ digits, isDecimalDigit c = true) :
    IsOneLine (String.ofList digits) :=
  .ofList fun c hc => not_lineChar_of_digit (h c hc)

theorem isOneLine_nat (n : Nat) : IsOneLine (toString n) := by
  have htext : toString n = String.ofList (Nat.toDigits 10 n) := Nat.repr_eq_ofList_toDigits
  rw [htext]
  exact isOneLine_digits fun _ => Node.isDecimalDigit_of_mem_toDigits

theorem isOneLine_int (n : Int) : IsOneLine (toString n) := by
  intro c hc
  rw [Number.toList_toString_int, List.mem_append] at hc
  rcases hc with hsign | hdigit
  · split at hsign
    · obtain rfl := List.mem_singleton.1 hsign
      decide
    · cases hsign
  · exact not_lineChar_of_digit (Node.isDecimalDigit_of_mem_toDigits hdigit)

theorem isOneLine_positional (h : ∀ c ∈ digits, isDecimalDigit c = true) (count : Int) :
    IsOneLine (Binary64.positional digits count) := by
  have hzero : ∀ n, ∀ c ∈ List.replicate n '0', isDecimalDigit c = true := by
    intro n c hc
    rw [(List.mem_replicate.1 hc).2]
    decide
  dsimp only [Binary64.positional]
  split
  · exact .append (by decide) (isOneLine_digits (List.forall_mem_append.2 ⟨hzero _, h⟩))
  · split
    · exact .append (isOneLine_digits (List.forall_mem_append.2 ⟨h, hzero _⟩)) (by decide)
    · exact .append (.append (isOneLine_digits fun c hc => h c (List.mem_of_mem_take hc)) (by decide))
        (isOneLine_digits fun c hc => h c (List.mem_of_mem_drop hc))

theorem isOneLine_scientific (h : ∀ c ∈ digits, isDecimalDigit c = true) (exponent : Int) :
    IsOneLine (Binary64.scientific digits exponent) := by
  dsimp only [Binary64.scientific]
  refine .append (.append (.append ?_ (by decide)) ?_) (isOneLine_nat _)
  · cases digits with
    | nil => exact (by decide : IsOneLine "")
    | cons c rest =>
      obtain ⟨hc, hrest⟩ := List.forall_mem_cons.1 h
      have hfirst : IsOneLine (String.ofList [c]) := isOneLine_digits (by simpa using hc)
      cases rest with
      | nil => exact hfirst
      | cons d rest => exact .append (.append hfirst (by decide)) (isOneLine_digits hrest)
  · split
    · decide
    · decide

theorem isOneLine_sign (negative : Bool) : IsOneLine (if negative then "-" else "") := by
  cases negative with
  | false => decide
  | true => decide

theorem Binary64.isOneLine_text (x : Binary64) : IsOneLine x.text := by
  have hdigits : ∀ c ∈ Nat.toDigits 10 x.shortest.digits, isDecimalDigit c = true := fun _ =>
    Node.isDecimalDigit_of_mem_toDigits
  rw [text]
  split
  · exact (isOneLine_sign _).append (by decide)
  · refine (isOneLine_sign _).append ?_
    split
    · exact isOneLine_positional hdigits _
    · exact isOneLine_scientific hdigits _

theorem Binary64.isOneLine_plainText (x : Binary64) : IsOneLine x.plainText := by
  rw [plainText]
  split
  · exact (isOneLine_sign _).append (isOneLine_nat _)
  · exact x.isOneLine_text

theorem Number.isOneLine_plainText (n : Number) : IsOneLine n.plainText := by
  cases n with
  | integer n hn => exact isOneLine_int n
  | double x => exact x.isOneLine_plainText

end Numbers

section Values

theorem not_lineChar_of_mem_delimiters {delim : Char} (h : delim ∈ delimiters) :
    delim ∉ lineChars :=
  not_lineChar_of (p := delimiters.contains) (by decide) (List.contains_iff_mem.2 h)

theorem not_lineChar_of_escape {delim e c : Char} (hdelim : delim ∈ delimiters)
    (h : (e, c) ∈ literalEscapes delim) : e ∉ lineChars := by
  simp only [literalEscapes, List.mem_cons, Prod.mk.injEq, List.not_mem_nil, or_false] at h
  rcases h with ⟨rfl, -⟩ | ⟨rfl, -⟩ | ⟨rfl, -⟩ | ⟨rfl, -⟩ | ⟨rfl, -⟩
  · decide
  · decide
  · decide
  · decide
  · exact not_lineChar_of_mem_delimiters hdelim

theorem not_lineChar_of_quotedChar {delim : Char} (hdelim : delim ∈ delimiters) {c d : Char}
    (h : d ∈ quotedChar delim c) : d ∉ lineChars := by
  rcases quotedChar_cases delim c with ⟨e, hescape, htext⟩ | ⟨-, hline, -, htext⟩
  · rw [htext, List.mem_cons, List.mem_singleton] at h
    rcases h with rfl | rfl
    · decide
    · exact not_lineChar_of_escape hdelim hescape
  · rw [htext, List.mem_singleton] at h
    rw [h]
    exact hline

theorem isOneLine_quote (s : String) : IsOneLine (quote s) := by
  have hdelim := not_lineChar_of_mem_delimiters (delimiter_mem s.toList)
  intro c hc
  rw [toList_quote, List.mem_cons, List.mem_append, List.mem_singleton] at hc
  rcases hc with rfl | hc | rfl
  · exact hdelim
  · obtain ⟨d, -, hd⟩ := List.mem_flatMap.1 hc
    exact not_lineChar_of_quotedChar (delimiter_mem _) hd
  · exact hdelim

theorem not_lineChar_of_identifier {c : Char} (h : isIdentifierRest c = true) : c ∉ lineChars :=
  not_lineChar_of (by decide) h

theorem isOneLine_of_isIdentifier {key : String} (h : isIdentifier key = true) :
    IsOneLine key := by
  rw [isIdentifier] at h
  intro c hc
  cases hkey : key.toList with
  | nil =>
    rw [hkey] at hc
    cases hc
  | cons first rest =>
    rw [hkey, Bool.and_eq_true, List.all_eq_true] at h
    rw [hkey] at hc
    rcases List.mem_cons.1 hc with rfl | hc
    · exact not_lineChar_of_identifier (by rw [isIdentifierRest, h.1]; rfl)
    · exact not_lineChar_of_identifier (h.2 c hc)

theorem isOneLine_fieldLabel (key : String) : IsOneLine (fieldLabel key) := by
  rw [fieldLabel]
  split
  · rename_i h
    exact isOneLine_of_isIdentifier h
  · exact isOneLine_quote key

/-- A container between its brackets. -/
theorem IsOneLine.bracketed {opening closing : String} {parts : List String}
    (hopening : IsOneLine opening) (hclosing : IsOneLine closing)
    (hparts : ∀ part ∈ parts, IsOneLine part) :
    IsOneLine (opening ++ String.intercalate ", " parts ++ closing) :=
  (hopening.append (.intercalate (by decide) hparts)).append hclosing

namespace Value

mutual
theorem isOneLine_literalAt (depth : Nat) : ∀ v : Value, IsOneLine (v.literalAt depth)
  | .null => by
    rw [literalAt]
    decide
  | .bool b => by
    rw [literalAt]
    cases b <;> decide
  | .number n => by
    rw [literalAt]
    exact n.isOneLine_plainText
  | .string s => by
    rw [literalAt]
    exact isOneLine_quote s
  | .array [] => by
    rw [literalAt]
    decide
  | .array (x :: xs) => by
    rw [literalAt]
    split
    · decide
    · exact .bracketed (by decide) (by decide) (isOneLine_literalItems (depth + 1) (x :: xs))
  | .object [] => by
    rw [literalAt]
    decide
  | .object (f :: fs) => by
    rw [literalAt]
    split
    · decide
    · exact .bracketed (by decide) (by decide) (isOneLine_literalFields (depth + 1) (f :: fs))
theorem isOneLine_literalItems (depth : Nat) :
    ∀ xs : List Value, ∀ part ∈ literalItems depth xs, IsOneLine part
  | [] => by
    intro part hpart
    rw [literalItems] at hpart
    cases hpart
  | x :: xs => by
    rw [literalItems, List.forall_mem_cons]
    exact ⟨isOneLine_literalAt depth x, isOneLine_literalItems depth xs⟩
theorem isOneLine_literalFields (depth : Nat) :
    ∀ fs : List (String × Value), ∀ part ∈ literalFields depth fs, IsOneLine part
  | [] => by
    intro part hpart
    rw [literalFields] at hpart
    cases hpart
  | (key, x) :: fs => by
    rw [literalFields, List.forall_mem_cons]
    exact ⟨((isOneLine_fieldLabel key).append (by decide)).append (isOneLine_literalAt depth x),
      isOneLine_literalFields depth fs⟩
end

end Value

end Values

/-- A quoted text begins and ends with one of the three delimiters. What stands between has it only
escaped, does not escape the one at the end, and is the text once its escapes are undone. So no two
texts are quoted alike, not even where more follows. The literal of a value has no line break and no
tab in it. -/
theorem literals_unambiguous_oneLine :
    (∀ s, ∃ delim ∈ delimiters, ∃ body, (quote s).toList = delim :: (body ++ [delim]) ∧
      OnlyEscaped delim body ∧ escapesNext body = false ∧
      unescape? delim body = some s.toList) ∧
    Function.Injective quote ∧
    (∀ s t x y, quote s ++ x = quote t ++ y ↔ s = t ∧ x = y) ∧
    ∀ v : Value, IsOneLine v.literal := by
  refine ⟨fun s => ?_, fun s t h => ?_, fun s t x y => ?_, Value.isOneLine_literalAt 0⟩
  · exact ⟨_, delimiter_mem s.toList, quoteBody s, toList_quote s, onlyEscaped_quoteBody s,
      escapesNext_quoteBody s, unescape?_quoteBody s⟩
  · exact (quote_append_inj (congrArg (· ++ "") h)).1
  · constructor
    · exact quote_append_inj
    · rintro ⟨rfl, rfl⟩
      rfl

/-- With all three delimiters in a text, the first one is taken and escaped. -/
example : quote "a'b\"c\x60\n" = "'a\\'b\"c\x60\\n'" := by decide

end TypedDocs
