import Mathlib.Data.List.MinMax
import Mathlib.Logic.Function.Iterate
import TypedDocs.Proofs.Dictionary
import TypedDocs.Proofs.Schema.Reachable

/-!
# How many array levels are left

Each array level on the way down a declared path is a wildcard in it. So no walk along declared
paths can go through more levels than the path with the most wildcards has, and the number of
levels that are left from a key on goes down with each item and never goes up.
-/

namespace TypedDocs

theorem wildcards_le_join (base s : String) : wildcards base ≤ wildcards (join base s) := by
  by_cases hbase : base = ""
  · rw [hbase]
    exact Nat.zero_le _
  · rw [join_of_ne_empty hbase, wildcards, wildcards, segmentsOf_append, List.count_append]
    exact Nat.le_add_right _ _

namespace Index

variable {index : Index} {key : String} {p : FieldPath}

/-- The largest number of wildcards in a declared path. -/
def arrayLevels (index : Index) : Nat := (index.paths.keys.map wildcards).foldr max 0

theorem wildcards_le_arrayLevels (h : index.contains key = true) :
    wildcards key ≤ index.arrayLevels := by
  have hmem : key ∈ index.paths.keys := Dictionary.mem_keys_iff.2 h
  exact List.le_max_of_le' 0 (List.mem_map.2 ⟨key, hmem, rfl⟩) (Nat.le_refl _)

/-- How many more keys of array levels can be declared, a key itself being the first. -/
def levelsLeft (index : Index) (key : String) : Nat := index.arrayLevels + 1 - wildcards key

theorem levelsLeft_root : index.levelsLeft "" = index.arrayLevels + 1 := by
  have hnone : wildcards "" = 0 := by decide
  rw [levelsLeft, hnone, Nat.sub_zero]

theorem levelsLeft_le (index : Index) (key : String) :
    index.levelsLeft key ≤ index.arrayLevels + 1 :=
  Nat.sub_le _ _

theorem levelsLeft_pos (h : index.contains key = true) : 0 < index.levelsLeft key := by
  have hlevels := wildcards_le_arrayLevels h
  unfold levelsLeft
  omega

theorem levelsLeft_item (index : Index) (base : String) :
    index.levelsLeft (join base wildcard) = index.levelsLeft base - 1 := by
  have hdown : wildcards (join base wildcard) = wildcards base + 1 :=
    wildcards_join base wildcard_undotted
  unfold levelsLeft
  omega

theorem levelsLeft_join_le (index : Index) (base s : String) :
    index.levelsLeft (join base s) ≤ index.levelsLeft base :=
  Nat.sub_le_sub_left (wildcards_le_join base s) _

theorem levelsLeft_enterItems_le (p : FieldPath) :
    index.levelsLeft (index.enterItems p).schema ≤ index.levelsLeft p.schema :=
  Nat.sub_le_sub_left (wildcards_le_enterItems p) _

theorem levelsLeft_resolve_le (index : Index) (p : FieldPath) (key : String) :
    index.levelsLeft (index.resolve p key).schema ≤ index.levelsLeft p.schema := by
  have hfollow (q : FieldPath) (s : String) :
      index.levelsLeft (index.followSegment q s).schema ≤ index.levelsLeft q.schema := by
    unfold followSegment
    split
    · exact levelsLeft_join_le ..
    · exact Nat.le_trans (levelsLeft_join_le ..) (levelsLeft_enterItems_le q)
  unfold resolve
  induction segmentsOf key generalizing p with
  | nil => exact Nat.le_refl _
  | cons s rest ih => exact Nat.le_trans (ih _) (hfollow p s)

/-- The levels that a name enters are counted by those that are left. -/
theorem enterItems_rounds (p : FieldPath) : ∃ rounds ≤ index.levelsLeft p.schema - 1,
    index.enterItems p = FieldPath.implicitElement^[rounds] p ∧
      (∀ i < rounds, index.entersItems (FieldPath.implicitElement^[i] p) = true) ∧
      index.entersItems (FieldPath.implicitElement^[rounds] p) = false := by
  induction p using enterItems.induct index with
  | case1 p henters ih =>
    obtain ⟨rounds, hle, hlast, hbefore, hstays⟩ := ih
    have hdeclared := (entersItems_iff.1 henters).2
    have hpos := levelsLeft_pos hdeclared
    have hitem := levelsLeft_item index p.schema
    refine ⟨rounds + 1, ?_, ?_, fun i hi => ?_, hstays⟩
    · have hbound : rounds ≤ index.levelsLeft (join p.schema wildcard) - 1 := hle
      omega
    · rw [enterItems_of_enters henters]
      exact hlast
    · cases i with
      | zero => exact henters
      | succ i => exact hbefore i (by omega)
  | case2 p hstays =>
    have hstays : index.entersItems p = false := by simpa using hstays
    exact ⟨0, Nat.zero_le _, enterItems_of_stays hstays, by simp, hstays⟩

end Index

end TypedDocs
