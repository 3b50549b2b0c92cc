import TypedDocs.Operator

/-!
# Names of operators

Every name in the tables of operators is written as an operator and without points, so a key that
is written otherwise is in no table.
-/

namespace TypedDocs

/-- A name that is found in a table is one of its names. -/
theorem name_of_lookup {α : Type} {table : List (String × α)} {name : String} {a : α}
    {q : String → Prop} (htable : ∀ row ∈ table, q row.1) (h : table.lookup name = some a) :
    q name := by
  obtain ⟨before, after, heq, -⟩ := List.lookup_eq_some_iff.1 h
  exact htable (name, a) (by simp [heq])

theorem FilterOperator.name_of_known {name : String} {q : String → Prop}
    (htable : ∀ row ∈ filterOperators, q row.1) (h : ofName name ≠ .unknown) : q name := by
  cases hl : filterOperators.lookup name with
  | none => exact absurd (by rw [ofName, hl]; rfl) h
  | some op => exact name_of_lookup htable hl

theorem FilterOperator.isOperator_of_name {name : String} (h : ofName name ≠ .unknown) :
    isOperator name = true :=
  name_of_known (q := fun name => isOperator name = true) (by decide) h

theorem FilterOperator.undotted_of_name {name : String} (h : ofName name ≠ .unknown) :
    '.' ∉ name.toList :=
  name_of_known (q := fun name => '.' ∉ name.toList) (by decide) h

theorem UpdateOperator.isOperator_of_name {name : String} (h : ofName name ≠ .unknown) :
    isOperator name = true := by
  cases hl : updateOperators.lookup name with
  | none => exact absurd (by rw [ofName, hl]; rfl) h
  | some op => exact name_of_lookup (q := fun name => isOperator name = true) (by decide) hl

theorem isOperator_of_known {key : String} (h : isKnownOperator key = true) :
    isOperator key = true :=
  FilterOperator.isOperator_of_name (of_decide_eq_true h)

end TypedDocs
