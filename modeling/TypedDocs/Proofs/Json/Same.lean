import Mathlib.Data.List.Nodup
import Mathlib.Data.List.Perm.Subperm
import TypedDocs.Dictionary
import TypedDocs.Proofs.Json.ReadBack

/-!
# Values that are the same but for the order of fields

Two objects are the same if they have the same names with the same values, in whatever order they
are written; two zeros are the same, whatever their signs. Among the values that are the same, one
at most is canonical: all its objects have their names in ascending order, and no zero has a sign.
The text of a value knows the order and the signs, so it is the text of no other value.
-/

namespace TypedDocs

/-- Equal numbers of one kind. -/
def Number.isSame : Number → Number → Bool
  | .integer m _, .integer n _ => m = n
  | .double x, .double y => x = y || (x.isZero && y.isZero)
  | _, _ => false

namespace Value

mutual
/-- Equal, where the order of fields is left aside. -/
def isSame : Value → Value → Bool
  | .null, .null => true
  | .bool a, .bool b => a = b
  | .number m, .number n => m.isSame n
  | .string s, .string t => s = t
  | .array xs, .array ys => itemsSame xs ys
  | .object fs, .object gs => fs.length = gs.length && fieldsFound fs gs
  | _, _ => false
def itemsSame : List Value → List Value → Bool
  | [], [] => true
  | x :: xs, y :: ys => isSame x y && itemsSame xs ys
  | _, _ => false
/-- Each field has one of its name among the others, and their values are the same. -/
def fieldsFound : List (String × Value) → List (String × Value) → Bool
  | [], _ => true
  | (k, x) :: fs, gs => (match Fields.get? gs k with
    | some y => isSame x y
    | none => false) && fieldsFound fs gs
end

mutual
/-- Names ascend in every object, and no zero has a sign. -/
def isCanonical : Value → Bool
  | .number n => n ≠ .double (.zero true)
  | .array xs => itemsCanonical xs
  | .object fs => decide (fs.Pairwise fun f g => f.1 < g.1) && membersCanonical fs
  | _ => true
def itemsCanonical : List Value → Bool
  | [] => true
  | x :: xs => isCanonical x && itemsCanonical xs
def membersCanonical : List (String × Value) → Bool
  | [] => true
  | (_, x) :: fs => isCanonical x && membersCanonical fs
end

end Value

theorem Binary64.eq_zero_of_isZero {x : Binary64} (h : x.isZero = true) : x = zero x.negative := by
  obtain ⟨negative, significand, exponent, hcanonical⟩ := x
  have hzero : significand = 0 := of_decide_eq_true h
  subst hzero
  have hexponent : exponent = -1074 := by
    rcases hcanonical.2.2.2 with hlarge | hleast
    · exact absurd hlarge (by decide)
    · exact hleast
  subst hexponent
  rfl

theorem Number.eq_of_isSame {m n : Number} (h : m.isSame n = true)
    (hm : m ≠ .double (.zero true)) (hn : n ≠ .double (.zero true)) : m = n := by
  cases m with
  | integer m _ =>
    cases n with
    | integer n _ =>
      have heq : m = n := of_decide_eq_true h
      subst heq
      rfl
    | double y => cases h
  | double x =>
    cases n with
    | integer n _ => cases h
    | double y =>
      rw [isSame, Bool.or_eq_true, decide_eq_true_eq, Bool.and_eq_true] at h
      rcases h with rfl | ⟨hx, hy⟩
      · rfl
      · have hunsigned : ∀ z : Binary64, z.isZero = true → Number.double z ≠ .double (.zero true) →
            z = .zero false := by
          intro z hz hne
          cases hsign : z.negative with
          | false => rw [Binary64.eq_zero_of_isZero hz, hsign]
          | true => exact absurd (by rw [Binary64.eq_zero_of_isZero hz, hsign]) hne
        rw [hunsigned x hx hm, hunsigned y hy hn]

namespace Fields

/-- Fields in ascending order are settled by their number and by what they hold. -/
theorem eq_of_found {fs gs : Fields} (hfs : Ascending fs) (hgs : Ascending gs)
    (hlength : fs.length = gs.length) (hfound : ∀ f ∈ fs, f ∈ gs) : fs = gs := by
  have hnodup : fs.Nodup := hfs.imp fun hlt => by
    rintro rfl
    exact String.lt_irrefl _ hlt
  have hperm : fs.Perm gs :=
    (List.subperm_of_subset hnodup hfound).perm_of_length_le (Nat.le_of_eq hlength.symm)
  refine hperm.eq_of_pairwise ?_ hfs hgs
  intro f g _ _ hlt hgt
  exact absurd (String.lt_trans hlt hgt) (String.lt_irrefl _)

end Fields

namespace Value

theorem membersCanonical_iff {fs : Fields} :
    membersCanonical fs = true ↔ ∀ f ∈ fs, f.2.isCanonical = true := by
  induction fs with
  | nil => simp [membersCanonical]
  | cons f fs ih => simp [membersCanonical, ih]

mutual
/-- A canonical value is the same as no other canonical value. -/
theorem eq_of_isSame : ∀ (v w : Value), v.isSame w = true → v.isCanonical = true →
    w.isCanonical = true → v = w
  | .null, w => by
    intro h _ _
    cases w <;> first | rfl | cases h
  | .bool a, w => by
    intro h _ _
    cases w with
    | bool b => rw [of_decide_eq_true h]
    | _ => cases h
  | .number m, w => by
    intro h hm hw
    cases w with
    | number n =>
      rw [isSame] at h
      rw [isCanonical, decide_eq_true_eq] at hm hw
      rw [Number.eq_of_isSame h hm hw]
    | _ => cases h
  | .string s, w => by
    intro h _ _
    cases w with
    | string t => rw [of_decide_eq_true h]
    | _ => cases h
  | .array xs, w => by
    intro h hv hw
    cases w with
    | array ys =>
      rw [isSame] at h
      rw [isCanonical] at hv hw
      rw [eq_of_itemsSame xs ys h hv hw]
    | _ => cases h
  | .object fs, w => by
    intro h hv hw
    cases w with
    | object gs =>
      rw [isSame, Bool.and_eq_true, decide_eq_true_eq] at h
      rw [isCanonical, Bool.and_eq_true, decide_eq_true_eq] at hv hw
      rw [Fields.eq_of_found hv.1 hw.1 h.1 (mem_of_fieldsFound fs gs h.2 hv.2 hw.2)]
    | _ => cases h
theorem eq_of_itemsSame : ∀ xs ys : List Value, itemsSame xs ys = true → itemsCanonical xs = true →
    itemsCanonical ys = true → xs = ys
  | [], ys => by
    intro h _ _
    cases ys with
    | nil => rfl
    | cons y ys => cases h
  | x :: xs, ys => by
    intro h hxs hys
    cases ys with
    | nil => cases h
    | cons y ys =>
      rw [itemsSame, Bool.and_eq_true] at h
      rw [itemsCanonical, Bool.and_eq_true] at hxs hys
      rw [eq_of_isSame x y h.1 hxs.1 hys.1, eq_of_itemsSame xs ys h.2 hxs.2 hys.2]
theorem mem_of_fieldsFound : ∀ fs gs : List (String × Value), fieldsFound fs gs = true →
    membersCanonical fs = true → membersCanonical gs = true → ∀ f ∈ fs, f ∈ gs
  | [], _ => fun _ _ _ _ hf => by cases hf
  | (k, x) :: fs, gs => by
    intro h hfs hgs f hf
    rw [fieldsFound, Bool.and_eq_true] at h
    rw [membersCanonical, Bool.and_eq_true] at hfs
    rcases List.mem_cons.1 hf with rfl | hf
    · cases hget : Fields.get? gs k with
      | none =>
        rw [hget] at h
        exact absurd h.1 Bool.false_ne_true
      | some y =>
        rw [hget] at h
        have hmem := Fields.mem_of_get? hget
        rw [eq_of_isSame x y h.1 hfs.1 (membersCanonical_iff.1 hgs _ hmem)]
        exact hmem
    · exact mem_of_fieldsFound fs gs h.2 hfs.2 hgs f hf
end

/-- No two values have one text. -/
theorem eq_of_compact_eq {v w : Value} (hv : v.doublesReadBack = true)
    (hv' : v.hasDistinctNames = true) (hw : w.doublesReadBack = true)
    (hw' : w.hasDistinctNames = true) (h : v.compact = w.compact) : v = w := by
  have hnode : v.toNode = w.toNode := by
    have hread := Node.parse?_compact hv
    rw [h, Node.parse?_compact hw] at hread
    exact (Option.some.inj hread).symm
  have hreadv := Node.toValue?_toNode v (max v.depth w.depth) hv hv'
  have hreadw := Node.toValue?_toNode w (max v.depth w.depth) hw hw'
  rw [if_pos (Nat.le_max_left _ _)] at hreadv
  rw [if_pos (Nat.le_max_right _ _), ← hnode, hreadv] at hreadw
  exact Option.some.inj hreadw

end Value

end TypedDocs
