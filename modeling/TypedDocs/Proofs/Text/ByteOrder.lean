import TypedDocs.Dictionary

/-!
# The order of texts and the order of their bytes

Texts are compared character by character. Their UTF-8 bytes, compared byte by byte, come in the
same order: a character of a higher code has a higher first byte, or the same first byte and as
many bytes after it, and of these the first that differs is higher.
-/

namespace TypedDocs

/-- The UTF-8 bytes of a text. -/
def utf8Bytes (s : String) : List UInt8 := s.toUTF8.data.toList

namespace Utf8

/-- The bytes of a code after the first one: `k` groups of six bits, the highest group first. -/
def continuation : Nat → Nat → List UInt8
  | 0, _ => []
  | k + 1, code => continuation k (code / 64) ++ [UInt8.ofNat (code % 64 + 0x80)]

/-- What `k` groups of six bits leave of a code. -/
def topBits : Nat → Nat → Nat
  | 0, code => code
  | k + 1, code => topBits k (code / 64)

/-- How many bytes come after the first one. -/
def continuations (code : Nat) : Nat :=
  if code < 0x80 then 0 else if code < 0x800 then 1 else if code < 0x10000 then 2 else 3

/-- What the first byte says about the number of bytes to come. -/
def lengthMark : Nat → Nat
  | 0 => 0
  | 1 => 0xC0
  | 2 => 0xE0
  | _ => 0xF0

def leadByte (code : Nat) : Nat :=
  topBits (continuations code) code + lengthMark (continuations code)

theorem length_cases (code : Nat) :
    (code < 0x80 ∧ continuations code = 0 ∧ leadByte code = code) ∨
    (0x80 ≤ code ∧ code < 0x800 ∧ continuations code = 1 ∧ leadByte code = code / 64 + 0xC0) ∨
    (0x800 ≤ code ∧ code < 0x10000 ∧ continuations code = 2 ∧
      leadByte code = code / 64 / 64 + 0xE0) ∨
    (0x10000 ≤ code ∧ continuations code = 3 ∧ leadByte code = code / 64 / 64 / 64 + 0xF0) := by
  rw [leadByte, continuations]
  split
  · exact .inl ⟨‹_›, rfl, rfl⟩
  · split
    · exact .inr (.inl ⟨by omega, ‹_›, rfl, rfl⟩)
    · split
      · exact .inr (.inr (.inl ⟨by omega, ‹_›, rfl, rfl⟩))
      · exact .inr (.inr (.inr ⟨by omega, rfl, rfl⟩))

theorem toNat_lt (c : Char) : c.toNat < 0x110000 := by
  rcases c.valid with h | h
  · exact Nat.lt_trans h (by decide)
  · exact h.2

theorem utf8EncodeChar_eq (c : Char) : String.utf8EncodeChar c =
    UInt8.ofNat (leadByte c.toNat) :: continuation (continuations c.toNat) c.toNat := by
  have hcode : c.val.toNat = c.toNat := rfl
  have hmax := toNat_lt c
  rcases length_cases c.toNat with ⟨h, hcount, hlead⟩ | ⟨h, h', hcount, hlead⟩ |
    ⟨h, h', hcount, hlead⟩ | ⟨h, hcount, hlead⟩
  · rw [hcount, hlead, String.utf8EncodeChar, hcode, if_pos (by omega)]
    rfl
  · have hfirst : c.toNat / 64 % 32 = c.toNat / 64 := by omega
    rw [hcount, hlead, String.utf8EncodeChar, hcode, if_neg (by omega), if_pos (by omega), hfirst]
    rfl
  · have hfirst : c.toNat / 4096 % 16 = c.toNat / 64 / 64 := by omega
    rw [hcount, hlead, String.utf8EncodeChar, hcode, if_neg (by omega), if_neg (by omega),
      if_pos (by omega), hfirst]
    rfl
  · have hfirst : c.toNat / 262144 % 8 = c.toNat / 64 / 64 / 64 := by omega
    have hsecond : c.toNat / 4096 % 64 = c.toNat / 64 / 64 % 64 := by omega
    rw [hcount, hlead, String.utf8EncodeChar, hcode, if_neg (by omega), if_neg (by omega),
      if_neg (by omega), hfirst, hsecond]
    rfl

theorem leadByte_lt {code : Nat} (h : code < 0x110000) : leadByte code < 256 := by
  have hcases := length_cases code
  omega

/-- A higher code has a higher first byte, or the same one and as many bytes after it. -/
theorem leadByte_mono {m n : Nat} (h : m < n) (hn : n < 0x110000) : leadByte m < leadByte n ∨
    leadByte m = leadByte n ∧ continuations m = continuations n := by
  have hm := length_cases m
  have hn := length_cases n
  omega

/-- Where the first bytes leave codes alike, the first group that differs decides. -/
theorem continuation_append_lt {m n : Nat} (h : m < n) {k : Nat} (htop : topBits k m = topBits k n)
    (xs ys : List UInt8) : continuation k m ++ xs < continuation k n ++ ys := by
  induction k generalizing m n xs ys with
  | zero => exact absurd htop (Nat.ne_of_lt h)
  | succ k ih =>
    simp only [continuation, List.append_assoc]
    -- The codes differ before their last groups, or in these alone.
    rcases Nat.lt_or_ge (m / 64) (n / 64) with hlt | hge
    · exact ih hlt htop _ _
    · have heq : m / 64 = n / 64 := by omega
      have hlast : UInt8.ofNat (m % 64 + 0x80) < UInt8.ofNat (n % 64 + 0x80) := by
        rw [UInt8.lt_iff_toNat_lt, UInt8.toNat_ofNat', UInt8.toNat_ofNat']
        omega
      rw [heq]
      exact List.append_left_lt (List.cons_lt_cons_iff.2 (.inl hlast))

/-- A lower character comes first, whatever follows it and the higher one. -/
theorem utf8EncodeChar_append_lt {c d : Char} (h : c < d) (xs ys : List UInt8) :
    String.utf8EncodeChar c ++ xs < String.utf8EncodeChar d ++ ys := by
  have hcode : c.toNat < d.toNat := h
  rw [utf8EncodeChar_eq, utf8EncodeChar_eq, List.cons_append, List.cons_append,
    List.cons_lt_cons_iff]
  rcases leadByte_mono hcode (toNat_lt d) with hlead | ⟨hlead, hcount⟩
  · have hc := leadByte_lt (toNat_lt c)
    have hd := leadByte_lt (toNat_lt d)
    left
    rw [UInt8.lt_iff_toNat_lt, UInt8.toNat_ofNat', UInt8.toNat_ofNat']
    omega
  · have htop := hlead
    rw [leadByte, leadByte, hcount] at htop
    right
    rw [hlead, hcount]
    exact ⟨rfl, continuation_append_lt hcode (Nat.add_right_cancel htop) xs ys⟩

theorem flatMap_utf8EncodeChar_lt {cs ds : List Char} (h : cs < ds) :
    cs.flatMap String.utf8EncodeChar < ds.flatMap String.utf8EncodeChar := by
  induction cs generalizing ds with
  | nil =>
    cases ds with
    | nil => cases h
    | cons d ds =>
      rw [List.flatMap_nil, List.flatMap_cons, utf8EncodeChar_eq, List.cons_append]
      exact List.nil_lt_cons _ _
  | cons c cs ih =>
    cases ds with
    | nil => cases h
    | cons d ds =>
      rw [List.flatMap_cons, List.flatMap_cons]
      rcases List.cons_lt_cons_iff.1 h with hhead | ⟨rfl, htail⟩
      · exact utf8EncodeChar_append_lt hhead _ _
      · exact List.append_left_lt (ih htail)

end Utf8

theorem utf8Bytes_eq (s : String) : utf8Bytes s = s.toList.flatMap String.utf8EncodeChar := by
  rw [utf8Bytes, String.toUTF8_eq_toByteArray, ← String.utf8Encode_toList, List.utf8Encode,
    List.toList_data_toByteArray]

theorem utf8Bytes_lt {s t : String} (h : s < t) : utf8Bytes s < utf8Bytes t := by
  have hchars : s.toList < t.toList := h
  rw [utf8Bytes_eq, utf8Bytes_eq]
  exact Utf8.flatMap_utf8EncodeChar_lt hchars

/-- Texts come in the order of their bytes. -/
theorem utf8Bytes_lt_iff {s t : String} : utf8Bytes s < utf8Bytes t ↔ s < t := by
  refine ⟨fun h => ?_, utf8Bytes_lt⟩
  by_cases hst : s < t
  · exact hst
  · by_cases heq : s = t
    · rw [heq] at h
      exact absurd h (List.lt_irrefl _)
    · have hts := Dictionary.lt_of_not_lt_of_ne hst heq
      exact absurd (utf8Bytes_lt hts) (List.lt_asymm h)

end TypedDocs
