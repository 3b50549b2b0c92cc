import TypedDocs.Proofs.Document.CallDepth
import TypedDocs.Proofs.Filter.CallDepth
import TypedDocs.Proofs.Json.Names
import TypedDocs.Proofs.Update.Typed

/-!
# The call depth of an update cast

An update is taken apart without recursion, and the values that stand in it are walked as parts of
a document or cast as conditions of a filter. So what bounds the calls of these walks bounds those
of the update. With it all casts come to their end, whatever the index and the input are.
-/

namespace TypedDocs

namespace Update

variable {n : Nat} {index : Index} {p : FieldPath} {v : Value} {fs : Fields}

def fieldWithin (n : Nat) (index : Index) (p : FieldPath) (v : Value) :
    Option (Except CastError Value) :=
  (Walker.fieldWithin ⟨index, true, .failFast⟩ n p v).map Walked.toExcept

def itemsWithin (n : Nat) (index : Index) (element : FieldPath) (v : Value) :
    Option (Except CastError Value) :=
  Filter.eachItem (fun _ => fieldWithin n index element) v

def appendedWithin (n : Nat) (index : Index) (p : FieldPath) (v : Value) :
    Option (Except CastError Value) :=
  if (index.lookup p.schema).isArray then
    match v with
    | .object modifiers =>
      match Fields.get? modifiers eachKey with
      | some items => (itemsWithin n index p.element items).map
          (Except.map fun cast => .object (Fields.assign modifiers eachKey cast))
      | none => fieldWithin n index p.element v
    | v => fieldWithin n index p.element v
  else some (.ok v)

/-- Casts the value under one key of an operand. -/
def entryWithin (n : Nat) (index : Index) (category : UpdateOperator) (key : String) (v : Value) :
    Option (Except CastError Value) :=
  match category with
  | .fields | .pullAll => fieldWithin n index (resolve index key) v
  | .append => appendedWithin n index (resolve index key) v
  | .pull => Filter.comparandWithin index n (resolve index key) v
  | .pop => some (ScalarType.number.coerce v)
  | .pathsOnly | .unknown => some (.ok v)

/-- Casts the entries that an operand keeps. -/
def operandWithin (n : Nat) (index : Index) (category : UpdateOperator) (fs : Fields) :
    Option (Except CastError Fields) :=
  Filter.eachField (entryWithin n index category) (prune index (dropsNullObjects category) fs)

def operatorWithin (n : Nat) (index : Index) (name : String) (operand : Value) :
    Option (Except CastError Value) :=
  match UpdateOperator.ofName name with
  | .unknown => some (.ok operand)
  | category => Filter.onObject (operandWithin n index category) operand

/-- Casts an update, where each walk of a value in it nests so many calls at most. -/
def castWithin (n : Nat) (index : Index) (options : UpdateOptions) :
    Value → Option (Except CastError Value)
  | .array stages => some (.ok (.array stages))
  | .object fields =>
    match fields.find? (isOperator ·.1), fields.find? (!isOperator ·.1) with
    | some (operator, _), some (field, _) => some (.error (.mixedUpdate operator field))
    | some _, none => (Filter.eachField (operatorWithin n index) fields).map (Except.map .object)
    | none, some _ => (operandWithin n index .fields fields).map (Except.map fun cast =>
        if options.overwrite then .object cast else .object [("$set", .object cast)])
    | none, none => some (.ok (.object fields))
  | v => some (.error (.ofShape v objectName))

theorem fieldWithin_eq (hn : 5 * v.depth + 2 * index.arrayLevels + 5 ≤ n) :
    fieldWithin n index p v = some (castField index p v) := by
  let w : Walker := ⟨index, true, .failFast⟩
  have hleft : w.index.levelsLeft p.schema ≤ index.arrayLevels + 1 := Index.levelsLeft_le _ _
  rw [fieldWithin, (w.enoughCalls n).field p v (by omega)]
  rfl

theorem itemsWithin_eq (hn : 5 * v.depth + 2 * index.arrayLevels + 5 ≤ n) :
    itemsWithin n index p v = some (castItems index p v) := by
  have hloop : Filter.each (fun _ => fieldWithin n index p) 0 v.promoted =
      some (v.promoted.mapM (castField index p)) := by
    refine Filter.each_eq (g := fun _ => castField index p)
      (r := fun _ xs => xs.mapM (castField index p)) (fun _ => rfl)
      (fun _ _ _ => Except.mapM_cons) (fun x hx _ => fieldWithin_eq ?_) 0
    have hdepth := Value.depth_le_of_promoted hx
    omega
  rw [itemsWithin, Filter.eachItem, hloop]
  rfl

theorem appendedWithin_eq (hn : 5 * v.depth + 2 * index.arrayLevels + 5 ≤ n) :
    appendedWithin n index p v = some (castAppended index p v) := by
  unfold appendedWithin
  cases harray : (index.lookup p.schema).isArray with
  | false => exact congrArg some (castAppended_elsewhere harray).symm
  | true =>
    rw [if_pos rfl]
    cases v with
    | object modifiers =>
      cases heach : Fields.get? modifiers eachKey with
      | some items =>
        have hdepth : items.depth ≤ Value.membersDepth modifiers :=
          Value.depth_le_membersDepth (Fields.mem_of_get? heach)
        rw [Value.depth_object] at hn
        rw [castAppended_several harray heach]
        simp only [heach]
        rw [itemsWithin_eq (by omega)]
        rfl
      | none =>
        rw [castAppended_one harray (by simp [listsItems, heach])]
        simp only [heach]
        exact fieldWithin_eq hn
    | _ =>
      rw [castAppended_one harray rfl]
      exact fieldWithin_eq hn

theorem entryWithin_eq {category : UpdateOperator} {key : String}
    (hn : 5 * v.depth + 2 * index.arrayLevels + 5 ≤ n) :
    entryWithin n index category key v = some (castEntry index category key v) := by
  have hleft := index.levelsLeft_le (resolve index key).schema
  cases category with
  | fields => exact fieldWithin_eq hn
  | pullAll => exact fieldWithin_eq hn
  | append => exact appendedWithin_eq hn
  | pull => exact (Filter.enoughCalls index n).comparand _ v (by omega)
  | _ => rfl

theorem operandWithin_eq {category : UpdateOperator} (hknown : category ≠ .unknown)
    (hn : 5 * (Value.object fs).depth + 2 * index.arrayLevels ≤ n) :
    operandWithin n index category fs = some (castOperand index category fs) := by
  rw [castOperand_eq_castEach hknown]
  refine Filter.eachField_eq rfl (fun _ _ _ => castEach_cons) fun field hfield => ?_
  have hdepth := Value.depth_le_membersDepth (List.mem_of_mem_filter hfield)
  rw [Value.depth_object] at hn
  exact entryWithin_eq (by omega)

theorem operatorWithin_eq {name : String} (hn : 5 * v.depth + 2 * index.arrayLevels ≤ n) :
    operatorWithin n index name v = some (castOperator index name v) := by
  unfold operatorWithin castOperator
  cases hname : UpdateOperator.ofName name with
  | unknown => rfl
  | _ =>
    cases v with
    | object fs =>
      simp only [Filter.onObject]
      rw [operandWithin_eq (by simp) hn]
      rfl
    | _ => rfl

theorem castWithin_eq {options : UpdateOptions}
    (hn : 5 * v.depth + 2 * index.arrayLevels ≤ n) :
    castWithin n index options v = some (cast index options v) := by
  cases v with
  | object fields =>
    have hoperators : ∀ field ∈ fields,
        operatorWithin n index field.1 field.2 = some (castOperator index field.1 field.2) := by
      intro field hfield
      have hdepth := Value.depth_le_membersDepth hfield
      rw [Value.depth_object] at hn
      exact operatorWithin_eq (by omega)
    have hall : Filter.eachField (operatorWithin n index) fields =
        some (castEach (castOperator index) fields) :=
      Filter.eachField_eq rfl (fun _ _ _ => castEach_cons) hoperators
    have hfields : operandWithin n index .fields fields = some (castFields index fields) :=
      operandWithin_eq (by simp) hn
    cases hoperator : fields.find? (isOperator ·.1) with
    | some operator =>
      cases hfield : fields.find? (!isOperator ·.1) with
      | some field => simp only [castWithin, cast, hoperator, hfield]
      | none =>
        simp only [castWithin, cast, hoperator, hfield, hall]
        rfl
    | none =>
      cases hfield : fields.find? (!isOperator ·.1) with
      | some field =>
        simp only [castWithin, cast, hoperator, hfield, hfields]
        cases castFields index fields with
        | error e => rfl
        | ok cast =>
          obtain ⟨overwrite⟩ := options
          cases overwrite <;> rfl
      | none => simp only [castWithin, cast, hoperator, hfield]
  | _ => rfl

end Update

/-- Nothing runs away. A name enters as many array levels as a declared path has at most, and every
cast has its result when the number of calls that may be nested is bounded by the depth of the input
and those array levels. A document that is cast without conversion is deeper than it was by no more
than them. -/
theorem Index.casts_end (index : Index) (v : Value) :
    (∀ p : FieldPath, ∃ rounds ≤ index.arrayLevels,
      index.enterItems p = FieldPath.implicitElement^[rounds] p ∧
      (∀ i < rounds, index.entersItems (FieldPath.implicitElement^[i] p) = true) ∧
      index.entersItems (FieldPath.implicitElement^[rounds] p) = false) ∧
    (∀ options n, 2 * v.depth + index.arrayLevels + 2 ≤ n →
      Document.walkWithin n index options v = some (Document.walk index options v)) ∧
    (∀ n, 5 * v.depth + 2 * index.arrayLevels + 2 ≤ n →
      Filter.castWithin n index v = some (Filter.cast index v)) ∧
    (∀ options n, 5 * v.depth + 2 * index.arrayLevels ≤ n →
      Update.castWithin n index options v = some (Update.cast index options v)) ∧
    ∀ options, options.coerce = false →
      (Document.cast index options v).value.depth ≤ v.depth + index.arrayLevels := by
  refine ⟨fun p => ?_, fun _ _ => Document.walkWithin_eq, fun _ => Filter.castWithin_eq,
    fun _ _ => Update.castWithin_eq, fun _ => Document.depth_cast_le⟩
  obtain ⟨rounds, hrounds, hlast⟩ := index.enterItems_rounds p
  have hleft := index.levelsLeft_le p.schema
  exact ⟨rounds, by omega, hlast⟩

/-- A single coordinate, where an array of arrays of numbers belongs. -/
def singleCoordinate : Value := .object [("points", .string "5")]

/-- The walk of a single coordinate puts two arrays around it, so it becomes as deep as it may. -/
theorem Index.casts_end_singleCoordinate :
    bands.arrayLevels = 2 ∧ singleCoordinate.depth = 1 ∧
    Document.walkWithin 6 bands {} singleCoordinate =
      some (Document.walk bands {} singleCoordinate) ∧
    Filter.castWithin 11 bands singleCoordinate = some (Filter.cast bands singleCoordinate) ∧
    Update.castWithin 9 bands {} singleCoordinate =
      some (Update.cast bands {} singleCoordinate) ∧
    (Document.cast bands { coerce := false } singleCoordinate).value.depth ≤ 3 ∧
    (Document.cast bands { coerce := false } singleCoordinate).value =
      .object [("points", .array [.array [.string "5"]])] := by
  have hlevels : bands.arrayLevels = 2 := by decide +kernel
  have hdepth : singleCoordinate.depth = 1 := by decide
  obtain ⟨-, hdocument, hfilter, hupdate, hdeeper⟩ := bands.casts_end singleCoordinate
  rw [hlevels, hdepth] at hdocument hfilter hupdate hdeeper
  exact ⟨hlevels, hdepth, hdocument {} 6 (by decide), hfilter 11 (by decide),
    hupdate {} 9 (by decide), hdeeper { coerce := false } rfl, by decide +kernel⟩

end TypedDocs
