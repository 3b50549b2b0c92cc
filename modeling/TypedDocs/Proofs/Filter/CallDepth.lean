import TypedDocs.Proofs.Filter.Reading
import TypedDocs.Proofs.Json.Depth
import TypedDocs.Proofs.Schema.LevelsLeft

/-!
# The call depth of a filter cast

A filter cast goes back and forth between filters, operators, locations and the items of arrays. It
is written here as these calls, of which only a bounded number may be nested. Some of them pass a
value on as it is: an operand is promoted and cast one array level down, and a comparand is cast at
its location. Between two that pass it on at one level only a few calls are nested, so the depth of
the filter and the array levels that are left bound all of them.
-/

namespace TypedDocs

namespace Filter

section Loops

variable {α : Type} {index : Index} {v : Value} {fs : Fields}

/-- Casts the parts of a container in order, each with its index, up to the first error. -/
def each (cast : Nat → α → Option (Except CastError α)) :
    Nat → List α → Option (Except CastError (List α))
  | _, [] => some (.ok [])
  | i, x :: xs =>
    (cast i x).bind fun
      | .error e => some (.error e)
      | .ok y => (each cast (i + 1) xs).map (Except.map fun ys => y :: ys)

/-- The fields of an object, each with its name. -/
def eachField (cast : String → Value → Option (Except CastError Value)) (fs : Fields) :
    Option (Except CastError Fields) :=
  each (fun _ field => (cast field.1 field.2).map (Except.map (Prod.mk field.1))) 0 fs

/-- The items of a value, which is made the only item of an array unless it is one. -/
def eachItem (cast : Nat → Value → Option (Except CastError Value)) (v : Value) :
    Option (Except CastError Value) :=
  (each cast 0 v.promoted).map (Except.map .array)

/-- A loop over parts that all have a result has the result of the chain of their casts. -/
theorem each_eq {cast : Nat → α → Option (Except CastError α)} {g : Nat → α → Except CastError α}
    {r : Nat → List α → Except CastError (List α)} (hnil : ∀ i, r i [] = .ok [])
    (hcons : ∀ i x xs, r i (x :: xs) =
      (g i x).bind fun y => (r (i + 1) xs).map fun ys => y :: ys)
    {xs : List α} (h : ∀ x ∈ xs, ∀ i, cast i x = some (g i x)) (i : Nat) :
    each cast i xs = some (r i xs) := by
  induction xs generalizing i with
  | nil => rw [each, hnil]
  | cons x xs ih =>
    rw [each, h x List.mem_cons_self, hcons, ih fun y hy => h y (List.mem_cons_of_mem _ hy)]
    cases g i x <;> rfl

theorem eachField_eq {cast : String → Value → Option (Except CastError Value)}
    {g : String → Value → Except CastError Value} {r : Fields → Except CastError Fields}
    (hnil : r [] = .ok [])
    (hcons : ∀ key x fs, r ((key, x) :: fs) =
      (g key x).bind fun y => (r fs).map fun gs => (key, y) :: gs)
    (h : ∀ field ∈ fs, cast field.1 field.2 = some (g field.1 field.2)) :
    eachField cast fs = some (r fs) := by
  refine each_eq (g := fun _ field => (g field.1 field.2).map (Prod.mk field.1))
    (r := fun _ => r) (fun _ => hnil) (fun _ field fs => ?_)
    (fun field hfield _ => by rw [h field hfield]; rfl) 0
  rw [hcons]
  cases g field.1 field.2 <;> rfl

theorem eachField_readings {cast : String → Value → Option (Except CastError Value)}
    {f : String → Reading}
    (h : ∀ field ∈ fs, cast field.1 field.2 = some ((f field.1).cast index field.2)) :
    eachField cast fs = some (Reading.castFields index f fs) :=
  eachField_eq rfl (fun _ _ _ => Reading.castFields_cons) h

theorem eachItem_readings {cast : Nat → Value → Option (Except CastError Value)} {r : Reading}
    {f : Nat → Reading}
    (hr : r.cast index v = (Reading.castItems index f 0 v.promoted).map .array)
    (h : ∀ x ∈ v.promoted, ∀ i, cast i x = some ((f i).cast index x)) :
    eachItem cast v = some (r.cast index v) := by
  have hloop : each cast 0 v.promoted = some (Reading.castItems index f 0 v.promoted) :=
    each_eq (r := Reading.castItems index f) (fun _ => rfl)
      (fun _ _ _ => Reading.castItems_cons) h 0
  rw [eachItem, hloop, hr]
  rfl

/-- A list of values of one reading is left alone if it is null. -/
theorem eachItem_members {cast : Value → Option (Except CastError Value)} {item : Reading}
    (h : ∀ x ∈ v.promoted, cast x = some (item.cast index x)) :
    (if v.isNull then some (.ok v) else eachItem (fun _ => cast) v) =
      some ((Reading.members item).cast index v) := by
  cases hnull : v.isNull with
  | true =>
    obtain rfl := Value.eq_null hnull
    exact congrArg some Reading.cast_members_null.symm
  | false =>
    rw [if_neg (by simp)]
    exact eachItem_readings (Reading.cast_members_promoted hnull) fun x hx _ => h x hx

/-- Casts the fields of an object; no other value is taken. -/
def onObject (cast : Fields → Option (Except CastError Fields)) :
    Value → Option (Except CastError Value)
  | .object fs => (cast fs).map (Except.map .object)
  | v => some (.error (.ofShape v objectName))

theorem onObject_readings {cast : Fields → Option (Except CastError Fields)} {r : Reading}
    {p : FieldPath} (hplan : r.plan index v = ⟨0, Plan.conditions index p v⟩)
    (h : ∀ fs, v = .object fs →
      cast fs = some (Reading.castFields index (Reading.ofCondition index p) fs)) :
    onObject cast v = some (r.cast index v) := by
  cases v with
  | object fs =>
    rw [onObject, h fs rfl, Reading.cast_of_plan_fields hplan]
    rfl
  | _ => rw [Reading.cast_of_reject (congrArg Plan.step hplan)]; rfl

end Loops

section Calls

/-- Casts the operand of an operator on a scalar, where values and lists of them are cast alike. -/
def scalarOperand (cast : Value → Option (Except CastError Value)) (name : String) (v : Value) :
    Option (Except CastError Value) :=
  match FilterOperator.ofName name with
  | .comparison => cast v
  | .membership | .logical => if v.isNull then some (.ok v) else eachItem (fun _ => cast) v
  | .element selector => some (selector.operandType.coerce v)
  | .container | .ignored | .unknown => some (.ok v)

/-- Casts a value compared with a scalar type. -/
def scalarWithin : Nat → ScalarType → Value → Option (Except CastError Value)
  | 0, _, _ => none
  | n + 1, t, v =>
    if t.satisfies v then some (.ok v)
    else match v with
      | .object fs =>
        if fs.any fun f => isOperator f.1 then
          (eachField (scalarOperand (scalarWithin n t)) fs).map (Except.map .object)
        else some (t.coerce (.object fs))
      | v => some (t.coerce v)

mutual
/-- Casts the members of a filter at a location. -/
def membersWithin (index : Index) :
    Nat → FieldPath → Fields → Option (Except CastError Fields)
  | 0, _, _ => none
  | n + 1, p, fs =>
    eachField (fun key v =>
      if isOperator key then operatorWithin index n p key v
      else locationWithin index n (index.resolve p key) v) fs
/-- Casts the operand of an operator at a location. -/
def operatorWithin (index : Index) :
    Nat → FieldPath → String → Value → Option (Except CastError Value)
  | 0, _, _, _ => none
  | n + 1, p, name, v =>
    match FilterOperator.ofName name with
    | .logical => logicalWithin index n p v
    | .comparison => comparandWithin index n p v
    | .membership =>
      if v.isNull then some (.ok v) else eachItem (fun _ => comparandWithin index n p) v
    | .element selector => some (selector.operandType.coerce v)
    | .container => containerWithin index n p v
    | .ignored | .unknown => some (.ok v)
/-- Casts the operand of the field at a location. -/
def locationWithin (index : Index) :
    Nat → FieldPath → Value → Option (Except CastError Value)
  | 0, _, _ => none
  | n + 1, p, v =>
    if v.isNull then some (.ok v)
    else match index.lookup p.schema with
      | .undeclared | .untyped => some (.ok v)
      | .array => arrayWithin index n p v
      | .object => onObject (membersWithin index n p) v
      | .scalar t => scalarWithin n t v
/-- Casts the operand of an array. -/
def arrayWithin (index : Index) :
    Nat → FieldPath → Value → Option (Except CastError Value)
  | 0, _, _ => none
  | n + 1, p, v =>
    if isForeignObject v then some (.ok v)
    else if isOperatorObject v then onObject (membersWithin index n p) v
    else eachItem (fun i => locationWithin index n (p.child (.index i))) v
/-- Casts a list of sub-filters at a location. -/
def logicalWithin (index : Index) :
    Nat → FieldPath → Value → Option (Except CastError Value)
  | 0, _, _ => none
  | n + 1, p, v =>
    eachItem (fun i x =>
      if p.isRoot then onObject (membersWithin index n p) x
      else if (index.lookup p.schema).isArray then
        if isOperatorObject x then onObject (membersWithin index n p) x
        else if x.isArray then comparandWithin index n p x
        else locationWithin index n (p.child (.index i)) x
      else locationWithin index n p x) v
/-- Casts a value matched against the items of the array at a location. -/
def containerWithin (index : Index) :
    Nat → FieldPath → Value → Option (Except CastError Value)
  | 0, _, _ => none
  | n + 1, p, v =>
    match index.lookup p.element.schema with
    | .array | .object => onObject (membersWithin index n p.element) v
    | .scalar t => scalarWithin n t v
    | .undeclared | .untyped => some (.ok v)
/-- Casts a value compared with the field at a location. -/
def comparandWithin (index : Index) :
    Nat → FieldPath → Value → Option (Except CastError Value)
  | 0, _, _ => none
  | n + 1, p, v =>
    if !(index.lookup p.schema).isArray then locationWithin index n p v
    else if v.isNull || isForeignObject v then some (.ok v)
    else if isOperatorObject v then onObject (membersWithin index n p) v
    else if v.isArray then locationWithin index n p v
    else locationWithin index n p.element v
end

end Calls

section Scalars

variable {index : Index} {t : ScalarType} {v : Value} {n : Nat}

theorem scalarOperand_eq {cast : Value → Option (Except CastError Value)} {name : String}
    (h : ∀ x, x.depth ≤ v.depth → cast x = some ((Reading.scalar t).cast index x)) :
    scalarOperand cast name v = some ((Reading.ofScalarOperand t name).cast index v) := by
  have hmembers := eachItem_members fun x hx => h x (Value.depth_le_of_promoted hx)
  rw [scalarOperand, Reading.ofScalarOperand_eq]
  cases FilterOperator.ofName name with
  | comparison => exact h v (Nat.le_refl _)
  | membership => exact hmembers
  | logical => exact hmembers
  | element selector => exact congrArg some Reading.cast_fixed.symm
  | _ => exact congrArg some (Reading.cast_of_plan_keep rfl).symm

/-- Operators on a scalar are nested in each other no deeper than the value is. -/
theorem scalarWithin_eq (hn : v.depth + 1 ≤ n) :
    scalarWithin n t v = some ((Reading.scalar t).cast index v) := by
  induction n generalizing v with
  | zero => omega
  | succ n ih =>
    unfold scalarWithin
    cases hsatisfied : t.satisfies v with
    | true => rw [if_pos rfl, Reading.cast_scalar_satisfied hsatisfied]
    | false =>
      rw [if_neg (by simp)]
      cases hoperators : Reading.hasOperators v with
      | false =>
        rw [Reading.cast_scalar_literal hoperators]
        cases v with
        | object fs => exact if_neg (ne_true_of_eq_false hoperators)
        | _ => rfl
      | true =>
        obtain ⟨fs, rfl⟩ := Reading.object_of_hasOperators hoperators
        have hfields : eachField (scalarOperand (scalarWithin n t)) fs =
            some (Reading.castFields index (Reading.ofScalarOperand t) fs) := by
          refine eachField_readings fun field hfield => scalarOperand_eq fun x hx => ih ?_
          have hdepth := Value.depth_le_membersDepth hfield
          rw [Value.depth_object] at hn
          omega
        rw [Reading.cast_scalar_operators hsatisfied hoperators]
        refine (if_pos hoperators).trans ?_
        rw [hfields]
        rfl

end Scalars

/-- So many nested calls are enough for every procedure of a filter cast, where the depth of the
value and the array levels that are left do not ask for more. -/
structure EnoughCalls (index : Index) (n : Nat) : Prop where
  -- From one filter to the next inside it there are five calls, by way of an operator, a list or a
  -- comparand, a location and its array. From one array level to the next there are two.
  members : ∀ p fs, 5 * (Value.object fs).depth + 2 * index.levelsLeft p.schema ≤ n →
    membersWithin index n p fs =
      some (Reading.castFields index (Reading.ofCondition index p) fs)
  array : ∀ p v, (index.lookup p.schema).isArray = true → v.isNull = false →
    5 * v.depth + 2 * index.levelsLeft p.schema + 1 ≤ n →
    arrayWithin index n p v = some ((Reading.location p).cast index v)
  location : ∀ p v, 5 * v.depth + 2 * index.levelsLeft p.schema + 2 ≤ n →
    locationWithin index n p v = some ((Reading.location p).cast index v)
  container : ∀ p v, 5 * v.depth + 2 * index.levelsLeft p.schema + 2 ≤ n →
    containerWithin index n p v = some ((Reading.container p).cast index v)
  comparand : ∀ p v, 5 * v.depth + 2 * index.levelsLeft p.schema + 3 ≤ n →
    comparandWithin index n p v = some ((Reading.comparand p).cast index v)
  logical : ∀ p v, 5 * v.depth + 2 * index.levelsLeft p.schema + 3 ≤ n →
    logicalWithin index n p v = some ((Reading.logical p).cast index v)
  operator : ∀ p name v, isOperator name = true →
    5 * v.depth + 2 * index.levelsLeft p.schema + 4 ≤ n →
    operatorWithin index n p name v = some ((Reading.ofCondition index p name).cast index v)

namespace EnoughCalls

variable {index : Index} {n : Nat} {p : FieldPath} {v : Value}

theorem conditions (h : EnoughCalls index n) {r : Reading}
    (hplan : r.plan index v = ⟨0, Plan.conditions index p v⟩)
    (hn : 5 * v.depth + 2 * index.levelsLeft p.schema ≤ n) :
    onObject (membersWithin index n p) v = some (r.cast index v) :=
  onObject_readings hplan fun fs hv => h.members p fs (hv ▸ hn)

theorem members_succ (h : EnoughCalls index n) {fs : Fields}
    (hn : 5 * (Value.object fs).depth + 2 * index.levelsLeft p.schema ≤ n + 1) :
    membersWithin index (n + 1) p fs =
      some (Reading.castFields index (Reading.ofCondition index p) fs) := by
  rw [membersWithin]
  refine eachField_readings fun field hfield => ?_
  have hdepth := Value.depth_le_membersDepth hfield
  rw [Value.depth_object] at hn
  cases hoperator : isOperator field.1 with
  | true =>
    rw [if_pos rfl]
    exact h.operator p field.1 field.2 hoperator (by omega)
  | false =>
    have hlevels := index.levelsLeft_resolve_le p field.1
    rw [if_neg (by simp), Reading.ofCondition_field hoperator]
    exact h.location _ field.2 (by omega)

theorem operator_succ (h : EnoughCalls index n) {name : String} (hoperator : isOperator name = true)
    (hn : 5 * v.depth + 2 * index.levelsLeft p.schema + 4 ≤ n + 1) :
    operatorWithin index (n + 1) p name v =
      some ((Reading.ofCondition index p name).cast index v) := by
  rw [operatorWithin, Reading.ofCondition, if_pos hoperator]
  cases FilterOperator.ofName name with
  | logical => exact h.logical p v (by omega)
  | comparison => exact h.comparand p v (by omega)
  | membership =>
    refine eachItem_members fun x hx => h.comparand p x ?_
    have hdepth := Value.depth_le_of_promoted hx
    omega
  | element selector => exact congrArg some Reading.cast_fixed.symm
  | container => exact h.container p v (by omega)
  | ignored => exact congrArg some (Reading.cast_of_plan_keep rfl).symm
  | unknown => exact congrArg some (Reading.cast_of_plan_keep rfl).symm

theorem location_succ (h : EnoughCalls index n)
    (hn : 5 * v.depth + 2 * index.levelsLeft p.schema + 2 ≤ n + 1) :
    locationWithin index (n + 1) p v = some ((Reading.location p).cast index v) := by
  rw [locationWithin]
  cases hnull : v.isNull with
  | true =>
    obtain rfl := Value.eq_null hnull
    exact congrArg some Reading.cast_location_null.symm
  | false =>
    rw [if_neg (by simp)]
    cases hl : index.lookup p.schema with
    | undeclared => exact congrArg some (Reading.cast_location_unknown (.inl hl)).symm
    | untyped => exact congrArg some (Reading.cast_location_unknown (.inr hl)).symm
    | array => exact h.array p v (by rw [hl]; rfl) hnull (by omega)
    | object =>
      refine h.conditions ?_ (by omega)
      rw [Reading.plan_location hnull (by rw [hl]; rfl), Plan.atRest, hl]
    | scalar t =>
      rw [Reading.cast_location_scalar hl hnull]
      exact scalarWithin_eq (by omega)

theorem array_succ (h : EnoughCalls index n) (harray : (index.lookup p.schema).isArray = true)
    (hnull : v.isNull = false)
    (hn : 5 * v.depth + 2 * index.levelsLeft p.schema + 1 ≤ n + 1) :
    arrayWithin index (n + 1) p v = some ((Reading.location p).cast index v) := by
  rw [arrayWithin]
  cases hforeign : isForeignObject v with
  | true => exact congrArg some (Reading.cast_location_foreign harray hforeign).symm
  | false =>
    cases hoperators : isOperatorObject v with
    | true =>
      refine h.conditions ?_ (by omega)
      rw [Reading.plan_location_array hnull harray]
      unfold Plan.array
      rw [if_neg (by simp [hforeign]), if_pos hoperators]
    | false =>
      have hitems : (Reading.location p).cast index v = (Reading.castItems index
          (fun i => .location (p.child (.index i))) 0 v.promoted).map .array :=
        Reading.cast_promoted (fun _ => Reading.cast_location_items harray) fun hsingle =>
          Reading.cast_location_single harray ⟨hnull, hsingle, hforeign, hoperators⟩
      refine eachItem_readings hitems fun x hx i => h.location _ x ?_
      -- The items are one array level further down, which makes up for the calls in between.
      have hdepth := Value.depth_le_of_promoted hx
      have hlevels : index.levelsLeft (p.child (.index i)).schema =
          index.levelsLeft p.schema - 1 := Index.levelsLeft_item index p.schema
      have hleft := Index.levelsLeft_pos (Index.contains_of_isArray harray)
      omega

theorem container_succ (h : EnoughCalls index n)
    (hn : 5 * v.depth + 2 * index.levelsLeft p.schema + 2 ≤ n + 1) :
    containerWithin index (n + 1) p v = some ((Reading.container p).cast index v) := by
  have hlevels : index.levelsLeft p.element.schema = index.levelsLeft p.schema - 1 :=
    Index.levelsLeft_item index p.schema
  have hplan : ∀ {step : Step}, Plan.container index p v = step →
      (Reading.container p).plan index v = ⟨0, step⟩ := fun hstep => congrArg (Plan.mk 0) hstep
  rw [containerWithin]
  cases hl : index.lookup p.element.schema with
  | array => exact h.conditions (hplan (by rw [Plan.container, hl])) (by omega)
  | object => exact h.conditions (hplan (by rw [Plan.container, hl])) (by omega)
  | scalar t =>
    rw [Reading.cast_container_scalar hl]
    exact scalarWithin_eq (by omega)
  | undeclared =>
    exact congrArg some (Reading.cast_of_plan_keep (hplan (by rw [Plan.container, hl]))).symm
  | untyped =>
    exact congrArg some (Reading.cast_of_plan_keep (hplan (by rw [Plan.container, hl]))).symm

theorem comparand_succ (h : EnoughCalls index n)
    (hn : 5 * v.depth + 2 * index.levelsLeft p.schema + 3 ≤ n + 1) :
    comparandWithin index (n + 1) p v = some ((Reading.comparand p).cast index v) := by
  rw [comparandWithin]
  cases harray : (index.lookup p.schema).isArray with
  | false =>
    rw [Reading.cast_congr (Reading.plan_comparand harray)]
    exact h.location p v (by omega)
  | true =>
    have hlevels : index.levelsLeft p.element.schema = index.levelsLeft p.schema - 1 :=
      Index.levelsLeft_item index p.schema
    obtain rfl | ⟨xs, rfl⟩ | hforeign | ⟨fs, rfl, hoperators⟩ | hsingle :=
      Reading.operand_cases v
    · exact congrArg some Reading.cast_comparand_null.symm
    · rw [Reading.cast_congr (Reading.plan_comparand_items harray)]
      exact h.location p _ (by omega)
    · rw [Reading.cast_comparand_foreign harray hforeign, hforeign]
      simp
    · have hforeign := Reading.not_foreign_of_operators hoperators
      rw [if_neg (by simp), if_neg (by simp [Value.isNull, hforeign]), if_pos hoperators]
      exact h.conditions (Reading.plan_comparand_operators harray hoperators) (by omega)
    · rw [Reading.cast_comparand_single harray hsingle, if_neg (by simp),
        if_neg (by simp [hsingle.not_null, hsingle.not_foreign]),
        if_neg (by simp [hsingle.not_operators]), if_neg (by simp [hsingle.not_array])]
      exact h.location p.element v (by omega)

theorem logical_succ (h : EnoughCalls index n)
    (hn : 5 * v.depth + 2 * index.levelsLeft p.schema + 3 ≤ n + 1) :
    logicalWithin index (n + 1) p v = some ((Reading.logical p).cast index v) := by
  rw [logicalWithin]
  refine eachItem_readings Reading.cast_logical_promoted fun x hx i => ?_
  have hdepth := Value.depth_le_of_promoted hx
  have hlevels : index.levelsLeft (p.child (.index i)).schema =
      index.levelsLeft p.schema - 1 := Index.levelsLeft_item index p.schema
  cases hroot : p.isRoot with
  | true =>
    refine h.conditions ?_ (by omega)
    simp [Reading.plan, Plan.subfilter, hroot]
  | false =>
    cases harray : (index.lookup p.schema).isArray with
    | false =>
      rw [Reading.cast_subfilter_location hroot harray]
      exact h.location p x (by omega)
    | true =>
      cases hoperators : isOperatorObject x with
      | true =>
        refine h.conditions ?_ (by omega)
        simp [Reading.plan, Plan.subfilter, hroot, harray, hoperators]
      | false =>
        cases hitems : x.isArray with
        | true =>
          -- Nothing here is one level down, but an array among the sub-filters is less deep.
          have hdeeper := Value.depth_lt_of_promoted_array hx hitems
          have hcomparand : (Reading.subfilter p i).cast index x =
              (Reading.comparand p).cast index x := by
            apply Reading.cast_congr
            simp [Reading.plan, Plan.subfilter, hroot, harray, hoperators, hitems]
          rw [hcomparand]
          exact h.comparand p x (by omega)
        | false =>
          rw [Reading.cast_subfilter_single hroot harray hitems hoperators]
          exact h.location _ x (by omega)

end EnoughCalls

theorem enoughCalls (index : Index) (n : Nat) : EnoughCalls index n := by
  induction n with
  | zero =>
    exact {
      members p fs hn := by rw [Value.depth_object] at hn; omega
      array p v _ _ hn := by omega
      location p v hn := by omega
      container p v hn := by omega
      comparand p v hn := by omega
      logical p v hn := by omega
      operator p name v _ hn := by omega }
  | succ n ih =>
    exact {
      members _ _ := ih.members_succ
      array _ _ := ih.array_succ
      location _ _ := ih.location_succ
      container _ _ := ih.container_succ
      comparand _ _ := ih.comparand_succ
      logical _ _ := ih.logical_succ
      operator _ _ _ := ih.operator_succ }

/-- Casts a filter, with so many nested calls at most. -/
def castWithin (n : Nat) (index : Index) : Value → Option (Except CastError Value) :=
  onObject (membersWithin index n .root)

/-- The cast of a filter comes to its end, if the depth of the filter and the array levels of the
index can be nested. -/
theorem castWithin_eq {n : Nat} {index : Index} {v : Value}
    (hn : 5 * v.depth + 2 * index.arrayLevels + 2 ≤ n) :
    castWithin n index v = some (cast index v) := by
  cases v with
  | object fs =>
    have hleft : index.levelsLeft FieldPath.root.schema = index.arrayLevels + 1 :=
      Index.levelsLeft_root
    rw [castWithin, onObject, (enoughCalls index n).members .root fs (by omega)]
    rfl
  | _ => rfl

end Filter

end TypedDocs
