import TypedDocs.Json.Value

/-!
# How deep a value is nested

Scalars have no depth, and each container adds one. So what is inside a value is less deep than
the value.
-/

namespace TypedDocs.Value

mutual
/-- How many containers are nested in each other at most. -/
def depth : Value → Nat
  | .array xs => itemsDepth xs + 1
  | .object fs => membersDepth fs + 1
  | _ => 0
def itemsDepth : List Value → Nat
  | [] => 0
  | x :: xs => max (depth x) (itemsDepth xs)
def membersDepth : List (String × Value) → Nat
  | [] => 0
  | (_, x) :: fs => max (depth x) (membersDepth fs)
end

variable {v x : Value} {xs : List Value} {fs : Fields}

theorem depth_array (xs : List Value) : (array xs).depth = itemsDepth xs + 1 := rfl

theorem depth_object (fs : Fields) : (object fs).depth = membersDepth fs + 1 := rfl

theorem depth_le_itemsDepth (h : x ∈ xs) : x.depth ≤ itemsDepth xs := by
  induction xs with
  | nil => cases h
  | cons y ys ih =>
    rw [itemsDepth]
    rcases List.mem_cons.1 h with rfl | h
    · exact Nat.le_max_left _ _
    · exact Nat.le_trans (ih h) (Nat.le_max_right _ _)

theorem depth_le_membersDepth {field : String × Value} (h : field ∈ fs) :
    field.2.depth ≤ membersDepth fs := by
  induction fs with
  | nil => cases h
  | cons first rest ih =>
    rw [membersDepth]
    rcases List.mem_cons.1 h with rfl | h
    · exact Nat.le_max_left _ _
    · exact Nat.le_trans (ih h) (Nat.le_max_right _ _)

/-- An item is less deep than the array; what is promoted is as deep as it was. -/
theorem depth_le_of_promoted (h : x ∈ v.promoted) : x.depth ≤ v.depth := by
  cases v with
  | array xs => exact Nat.le_succ_of_le (depth_le_itemsDepth h)
  | _ => exact Nat.le_of_eq (congrArg depth (List.mem_singleton.1 h))

/-- What is promoted is no array, so an array among the parts is an item of one. -/
theorem depth_lt_of_promoted_array (h : x ∈ v.promoted) (harray : x.isArray = true) :
    x.depth < v.depth := by
  cases v with
  | array xs => exact Nat.lt_succ_of_le (depth_le_itemsDepth h)
  | _ =>
    rw [List.mem_singleton.1 h] at harray
    cases harray

end TypedDocs.Value
