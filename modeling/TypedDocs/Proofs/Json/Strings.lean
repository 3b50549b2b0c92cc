import TypedDocs.Json.Node
import TypedDocs.Json.Writer

/-!
# Strings as they are written

A string that is written with its escapes is read back as the same string. Each character leaves
one piece, and no two of the pieces are halves of a pair.
-/

namespace TypedDocs

namespace Node

attribute [local simp] pieces? joinPieces?

/-- The control characters that are escaped by a letter. -/
def letteredControls : List Char := ['\x08', '\x0c', '\n', '\r', '\t']

/-- The piece that a written character is read as. -/
def pieceOf (c : Char) : Piece :=
  if c.toNat < 0x20 ∧ c ∉ letteredControls then .unit c.toNat else .char c

theorem hexUnit?_hexDigits :
    ∀ n < 0x20, hexUnit? ['0', '0', hexDigit (n / 16), hexDigit n] = some n := by
  decide

theorem pieces?_plain {c : Char} {rest : List Char} (hquote : c ≠ '"') (hslash : c ≠ '\\')
    (hcontrol : ¬ c.toNat < 0x20) :
    pieces? (c :: rest) = (pieces? rest).map fun p => (.char c :: p.1, p.2) := by
  rw [pieces?]
  · rw [if_neg (by simp [hcontrol, hslash])]
    cases pieces? rest <;> rfl
  · exact hquote
  · exact fun _ _ _ _ _ heq _ => hslash heq
  · exact fun _ _ heq _ => hslash heq

/-- The letters of escapes and the characters they stand for. -/
def escapes : List (Char × Char) :=
  [('"', '"'), ('\\', '\\'), ('b', '\x08'), ('f', '\x0c'), ('n', '\n'), ('r', '\r'), ('t', '\t')]

theorem pieces?_escape {e c : Char} {rest : List Char} (h : (e, c) ∈ escapes) :
    pieces? ('\\' :: e :: rest) = (pieces? rest).map fun p => (.char c :: p.1, p.2) := by
  simp only [escapes, List.mem_cons, Prod.mk.injEq, List.not_mem_nil, or_false] at h
  rcases h with ⟨rfl, rfl⟩ | ⟨rfl, rfl⟩ | ⟨rfl, rfl⟩ | ⟨rfl, rfl⟩ | ⟨rfl, rfl⟩ | ⟨rfl, rfl⟩ |
    ⟨rfl, rfl⟩
  all_goals
    rw [pieces?]
    cases pieces? rest <;> rfl

theorem pieces?_code {n : Nat} (hn : n < 0x20) {rest : List Char} :
    pieces? ('\\' :: 'u' :: '0' :: '0' :: hexDigit (n / 16) :: hexDigit n :: rest) =
      (pieces? rest).map fun p => (.unit n :: p.1, p.2) := by
  rw [pieces?, hexUnit?_hexDigits n hn]
  cases pieces? rest <;> rfl

/-- A character is escaped by a letter or by its code, or it stands for itself. -/
theorem jsonChar_cases (c : Char) :
    (∃ e, (e, c) ∈ escapes ∧ jsonChar c = ['\\', e]) ∨
      (c.toNat < 0x20 ∧ c ∉ letteredControls ∧
        jsonChar c = ['\\', 'u', '0', '0', hexDigit (c.toNat / 16), hexDigit c.toNat]) ∨
      (c ≠ '"' ∧ c ≠ '\\' ∧ ¬ c.toNat < 0x20 ∧ jsonChar c = [c]) := by
  by_cases hescaped : c ∈ escapes.map Prod.snd
  · left
    simp only [escapes, List.map_cons, List.map_nil, List.mem_cons, List.not_mem_nil,
      or_false] at hescaped
    rcases hescaped with rfl | rfl | rfl | rfl | rfl | rfl | rfl <;>
      exact ⟨_, by decide, rfl⟩
  · right
    simp only [escapes, List.map_cons, List.map_nil, List.mem_cons, List.not_mem_nil, or_false,
      not_or] at hescaped
    obtain ⟨hquote, hslash, hb, hf, hn, hr, ht⟩ := hescaped
    by_cases hcontrol : c.toNat < 0x20
    · left
      refine ⟨hcontrol, by simp [letteredControls, hb, hf, hn, hr, ht], ?_⟩
      simp only [jsonChar, hquote, hslash, hb, hf, hn, hr, ht, hcontrol, if_false, if_true]
    · right
      refine ⟨hquote, hslash, hcontrol, ?_⟩
      simp only [jsonChar, hquote, hslash, hb, hf, hn, hr, ht, hcontrol, if_false]

/-- A written character is read as one piece, whatever follows. -/
theorem pieces?_jsonChar (c : Char) (rest : List Char) :
    pieces? (jsonChar c ++ rest) = (pieces? rest).map fun p => (pieceOf c :: p.1, p.2) := by
  rcases jsonChar_cases c with ⟨e, hescape, htext⟩ | ⟨hcontrol, hcode, htext⟩ |
    ⟨hquote, hslash, hcontrol, htext⟩
  · have hchars : ∀ p ∈ escapes, ¬ (p.2.toNat < 0x20 ∧ p.2 ∉ letteredControls) := by decide
    have hpiece : pieceOf c = .char c := if_neg (hchars _ hescape)
    rw [htext, hpiece]
    exact pieces?_escape hescape
  · have hpiece : pieceOf c = .unit c.toNat := if_pos ⟨hcontrol, hcode⟩
    rw [htext, hpiece]
    exact pieces?_code hcontrol
  · have hpiece : pieceOf c = .char c := if_neg fun h => hcontrol h.1
    rw [htext, hpiece]
    exact pieces?_plain hquote hslash hcontrol

/-- A written text is read up to its closing quote. -/
theorem pieces?_written (cs rest : List Char) :
    pieces? (cs.flatMap jsonChar ++ '"' :: rest) = some (cs.map pieceOf, rest) := by
  induction cs with
  | nil => simp
  | cons c cs ih =>
    rw [List.flatMap_cons, List.append_assoc, pieces?_jsonChar, ih]
    rfl

theorem joinPieces?_unit {n : Nat} (hn : n < 0x20) (pieces : List Piece) :
    joinPieces? (.unit n :: pieces) = (joinPieces? pieces).map (Char.ofNat n :: ·) := by
  have hlow : ¬ 0xD800 ≤ n := by omega
  have hhigh : ¬ 0xDC00 ≤ n := by omega
  rcases pieces with _ | ⟨c | m, rest⟩ <;> simp [hlow, hhigh]

/-- The pieces of a written text make the text. -/
theorem joinPieces?_map_pieceOf (cs : List Char) : joinPieces? (cs.map pieceOf) = some cs := by
  induction cs with
  | nil => rw [List.map_nil, joinPieces?]
  | cons c cs ih =>
    rw [List.map_cons, pieceOf]
    split
    · rename_i hcontrol
      rw [joinPieces?_unit hcontrol.1, ih, Char.ofNat_toNat]
      rfl
    · rw [joinPieces?, ih]
      rfl

/-- A written string is read as itself. -/
theorem stringText?_written (s : String) : stringText? (s.toList.map pieceOf) = some s := by
  rw [stringText?, joinPieces?_map_pieceOf, Option.map_some, String.ofList_toList]

theorem toList_jsonString (s : String) :
    (jsonString s).toList = '"' :: (s.toList.flatMap jsonChar ++ ['"']) := by
  rw [jsonString, String.toList_ofList]
  rfl

end Node

end TypedDocs
