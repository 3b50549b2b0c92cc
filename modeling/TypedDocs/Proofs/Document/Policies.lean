import TypedDocs.Proofs.Document.InstanceKeys
import TypedDocs.Proofs.Schema.FieldNames

/-!
# The two policies of a document cast

A cast that stops at the first failure fails exactly if one that goes on does, and if
neither fails they return the same value. Otherwise it reports the first of the failures
that the other one meets. A later failure may have replaced that one in the aggregate of
the other cast, but not if the document has no point in a name.
-/

namespace TypedDocs

theorem Definition.hasNoEmptyName_of_compile {registry : Registry} {options : CompileOptions}
    {definition : Value} {index : Index} (h : compile registry options definition = .ok index) :
    index.HasNoEmptyName := not_contains_empty_name h

namespace Document

variable {index : Index} {options : DocumentOptions} {d : Value}

/-- The two policies of one walk of a document. -/
theorem walk_first (index : Index) (coerce : Bool) (location : String) (d : Value) :
    StopsAtFirst (walk index { policy := .accumulate, coerce, location } d)
      (walk index { policy := .failFast, coerce, location } d) := by
  cases d with
  | object fs =>
    have hfields := (Walker.stopsAtFirst ⟨index, coerce, .accumulate⟩).fields fs
      (FieldPath.parse location)
    exact hfields.map Value.object
  | _ => exact .of_short (Nat.le_refl 1)

theorem errors_eq_none_iff :
    (cast index options d).errors = none ↔ (walk index options d).failures = [] := by
  constructor
  · intro hnone
    cases hfailures : (walk index options d).failures with
    | nil => rfl
    | cons f rest =>
      have hmem : (f.1, f.2) ∈ (walk index options d).failures := by
        rw [hfailures]
        exact List.mem_cons_self
      have hrecorded := isSome_error?_of_mem hmem
      rw [Outcome.error?, hnone] at hrecorded
      cases hrecorded
  · intro hfailures
    rw [cast, hfailures]
    rfl

theorem errors_of_singleton {f : Failure} (h : (walk index options d).failures = [f]) :
    (cast index options d).errors.map Dictionary.bindings = some [f] := by
  rw [cast, h]
  rfl

/-- What the casts of a document come to: one value under both policies, or the error that ends a
cast at the first failure. -/
inductive ComesTo (index : Index) (d : Value) : Except CastError Value → Prop
  | ok {w : Value} : (∀ policy, cast index { policy } d = ⟨w, none⟩) → ComesTo index d (.ok w)
  | error {path : String} {e : CastError} :
      (cast index { policy := .failFast } d).errors.map Dictionary.bindings = some [(path, e)] →
      ComesTo index d (.error e)

theorem comesTo_walk (index : Index) (d : Value) :
    ComesTo index d (walk index { policy := .failFast } d).toExcept := by
  have hfirst := walk_first index true "" d
  cases hr : (walk index { policy := .failFast } d).toExcept with
  | ok w =>
    refine .ok fun policy => ?_
    have hpolicy : (walk index { policy } d).toExcept = .ok w := by
      cases policy with
      | accumulate => exact hfirst.toExcept.symm.trans hr
      | failFast => exact hr
    obtain ⟨hclean, hvalue⟩ := Walked.toExcept_eq_ok_iff.1 hpolicy
    rw [cast, hclean, hvalue]
    rfl
  | error e =>
    obtain ⟨path, rest, hfailures⟩ := Walked.toExcept_eq_error_iff.1 hr
    obtain rfl := hfirst.only_failure hfailures
    exact .error (errors_of_singleton hfailures)

/-- An aggregate has an error at the key of every failure that was met. -/
theorem contains_of_mem {errors : CastErrors} (h : (cast index options d).errors = some errors)
    {f : Failure} (hf : f ∈ (walk index options d).failures) : errors.contains f.1 = true := by
  have hrecorded : ((cast index options d).error? f.1).isSome = true := isSome_error?_of_mem hf
  rw [Outcome.error?, h] at hrecorded
  exact hrecorded

/-- The policies fail together and otherwise agree on the value. The one failure that is reported
when stopping is the first that is met, and is found in the aggregate as it is unless a later one
has the same key. -/
theorem policies_agree {registry : Registry} {compileOptions : CompileOptions}
    {definition : Value} {index : Index}
    (hcompile : Definition.compile registry compileOptions definition = .ok index)
    (coerce : Bool) (location : String) (d : Value) :
    let full := cast index { policy := .accumulate, coerce := coerce, location := location } d
    let first := cast index { policy := .failFast, coerce := coerce, location := location } d
    (first.errors = none ↔ full.errors = none) ∧
    (full.errors = none → first.value = full.value) ∧
    ∀ errors, full.errors = some errors → ∃ path e,
      first.errors.map Dictionary.bindings = some [(path, e)] ∧
      (walk index { policy := .accumulate, coerce := coerce, location := location } d).failures.head?
        = some (path, e) ∧
      errors.contains path = true ∧
      (d.hasDistinctNames = true → d.hasUndottedNames = true → errors.get? path = some e) := by
  intro full first
  have hfirst := walk_first index coerce location d
  have hfull : full.errors = none ↔
      (walk index { policy := .accumulate, coerce, location } d).failures = [] := errors_eq_none_iff
  refine ⟨?_, fun hnone => hfirst.value (hfull.1 hnone), fun errors herrors => ?_⟩
  · rw [errors_eq_none_iff, hfull, hfirst.failures]
    simp
  · cases hfailures : (walk index { policy := .accumulate, coerce, location } d).failures with
    | nil =>
      rw [hfull.2 hfailures] at herrors
      cases herrors
    | cons f rest =>
      have hmem : f ∈ (walk index { policy := .accumulate, coerce, location } d).failures := by
        rw [hfailures]
        exact List.mem_cons_self
      have hone : (walk index { policy := .failFast, coerce, location } d).failures = [f] := by
        rw [hfirst.failures, hfailures]
        rfl
      refine ⟨f.1, f.2, errors_of_singleton hone, rfl, contains_of_mem herrors hmem, ?_⟩
      intro hdistinct hundotted
      have hnames := Definition.hasNoEmptyName_of_compile hcompile
      have hrecorded : full.error? f.1 = some f.2 :=
        error?_of_mem (walk_owned hnames hdistinct hundotted).nodup hmem
      rwa [Outcome.error?, herrors] at hrecorded

/-- A band with two failures, of which the first to be met is not the first in the order of keys. -/
theorem policies_agree_bands :
    let d : Value := .object [("members", .array [.string "Axl Rose"]), ("born", .string "soon")]
    ∃ errors path e, (cast bands {} d).errors = some errors ∧
      (cast bands { policy := .failFast } d).errors.map Dictionary.bindings = some [(path, e)] ∧
      errors.get? path = some e := by
  intro d
  obtain ⟨errors, herrors⟩ := Option.isSome_iff_exists.1
    (show (cast bands {} d).errors.isSome = true by decide +kernel)
  have hagree := policies_agree compile_bands true "" d
  obtain ⟨path, e, hone, -, -, hsame⟩ := hagree.2.2 errors herrors
  exact ⟨errors, path, e, herrors, hone, hsame (by decide) (by decide)⟩

end Document

end TypedDocs
