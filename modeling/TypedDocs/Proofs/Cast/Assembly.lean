import TypedDocs.Json.Writer
import TypedDocs.Proofs.Dictionary
import TypedDocs.Proofs.Text.ByteOrder

/-!
# Aggregates however they are put together

An aggregate depends on nothing but the rows that were marked on the way to it, in their order.
Whether they were marked one after the other or in groups that were merged, and however the merges
were nested, it holds of each path the last row, and everything that can be asked of it is told by
the one list of these rows in the byte order of their paths.
-/

namespace TypedDocs.CastErrors

/-- A way to put an aggregate together. A list of rows that is cut into groups has one for each
nesting of the merges. -/
inductive Assembly where
  /-- Rows are marked one after the other in a fresh aggregate. -/
  | group (rows : List (String × CastError))
  /-- A row is marked in an aggregate. -/
  | mark (before : Assembly) (path : String) (error : CastError)
  /-- The second aggregate is merged into the first one. -/
  | merge (first second : Assembly)

namespace Assembly

/-- The aggregate. -/
def errors : Assembly → CastErrors
  | group rows => ofRows rows
  | mark before path error => before.errors.mark path error
  | merge first second => first.errors.merge second.errors

/-- The rows that are marked, in their order. -/
def rows : Assembly → List (String × CastError)
  | group rows => rows
  | mark before path error => before.rows ++ [(path, error)]
  | merge first second => first.rows ++ second.rows

end Assembly

/-- What is left of marked rows: of each path the last one, in the byte order of the paths. -/
structure IsListing (rows listing : List (String × CastError)) : Prop where
  ascending : listing.Pairwise fun a b => utf8Bytes a.1 < utf8Bytes b.1
  mem_iff : ∀ row, row ∈ listing ↔ Dictionary.IsLast rows row

/-- A row in the text of an aggregate. -/
def rowText (row : String × CastError) : String := row.1 ++ ": " ++ row.2.message

/-- A row in the JSON text of an aggregate. -/
def rowJson (row : String × CastError) : String :=
  jsonString row.1 ++ ":" ++ jsonString row.2.message

/-- Everything that can be asked of an aggregate is told by one list of rows. -/
structure Shows (errors : CastErrors) (listing : List (String × CastError)) : Prop where
  bindings : errors.bindings = listing
  keys : errors.keys = listing.map Prod.fst
  get?_iff : ∀ path error, errors.get? path = some error ↔ (path, error) ∈ listing
  size : errors.size = listing.length
  isEmpty : errors.isEmpty = listing.isEmpty
  hasError : errors.hasError = !listing.isEmpty
  toOption : errors.toOption = if listing.isEmpty then none else some errors
  message : errors.message = String.intercalate ", " (listing.map rowText)
  json : errors.toValue.compact = "\x7b" ++ String.intercalate "," (listing.map rowJson) ++ "\x7d"

section Observers

variable {rows listing : List (String × CastError)}

theorem compactFields_rows : Value.compactFields
    (rows.map fun row => (row.1, .string row.2.message)) = rows.map rowJson := by
  induction rows with
  | nil => rw [List.map_nil, List.map_nil, Value.compactFields]
  | cons row rows ih =>
    rw [List.map_cons, List.map_cons, Value.compactFields, ih, Value.compact]
    rfl

theorem compact_toValue (errors : CastErrors) : errors.toValue.compact =
    "\x7b" ++ String.intercalate "," (errors.bindings.map rowJson) ++ "\x7d" := by
  rw [toValue, Value.compact, compactFields_rows]

theorem toOption_eq (errors : CastErrors) :
    errors.toOption = if errors.bindings.isEmpty then none else some errors := by
  rw [toOption, hasError, Dictionary.isEmpty]
  cases errors.bindings.isEmpty with
  | true => rfl
  | false => rfl

theorem shows_bindings (errors : CastErrors) : errors.Shows errors.bindings where
  bindings := rfl
  keys := rfl
  get?_iff _ _ := Dictionary.get?_eq_some_iff
  size := rfl
  isEmpty := rfl
  hasError := rfl
  toOption := toOption_eq errors
  message := rfl
  json := compact_toValue errors

theorem isListing_ofRows (rows : List (String × CastError)) :
    IsListing rows (ofRows rows).bindings where
  ascending := (ofRows rows).ascending.imp utf8Bytes_lt
  mem_iff _ := Dictionary.mem_bindings_ofList_iff

/-- Rows in the byte order of their paths are a dictionary, so there is one listing only. -/
theorem IsListing.eq_bindings (h : IsListing rows listing) : listing = (ofRows rows).bindings := by
  have hascending : Ascending listing := h.ascending.imp utf8Bytes_lt_iff.1
  have heq : (⟨listing, hascending⟩ : CastErrors) = ofRows rows := by
    refine Dictionary.ext_get? fun path => Option.ext fun error => ?_
    rw [Dictionary.get?_eq_some_iff, Dictionary.get?_eq_some_iff, h.mem_iff, ofRows,
      Dictionary.mem_bindings_ofList_iff]
  exact congrArg Dictionary.bindings heq

theorem isListing_iff : IsListing rows listing ↔ listing = (ofRows rows).bindings := by
  constructor
  · exact IsListing.eq_bindings
  · rintro rfl
    exact isListing_ofRows rows

end Observers

theorem merge_assoc (e f g : CastErrors) : (e.merge f).merge g = e.merge (f.merge g) :=
  Dictionary.union_assoc

theorem ofRows_mark (rows : List (String × CastError)) (path : String) (error : CastError) :
    ofRows (rows ++ [(path, error)]) = (ofRows rows).mark path error :=
  Dictionary.insertAll_append

/-- Aggregates that are merged hold what all their rows leave when they are marked one by one. -/
theorem Assembly.errors_eq (a : Assembly) : a.errors = ofRows a.rows := by
  induction a with
  | group rows => rfl
  | mark before path error ih => rw [errors, rows, ih, ofRows_mark]
  | merge first second ihfirst ihsecond =>
    rw [errors, rows, ihfirst, ihsecond]
    exact Dictionary.ofList_append.symm

/-- However an aggregate is put together, it is the one in which its rows are marked one by one.
There is one listing of the last row of each path in the byte order of the paths, and everything
that can be asked of the aggregate is told by it. Merging is associative, and merging with an
aggregate without errors changes nothing. -/
theorem assembly_shows_listing (a : Assembly) :
    a.errors = a.rows.foldl (fun (e : CastErrors) row => e.mark row.1 row.2) Dictionary.empty ∧
    (∃ listing, (∀ other, IsListing a.rows other ↔ other = listing) ∧ a.errors.Shows listing) ∧
    (∀ e f g : CastErrors, (e.merge f).merge g = e.merge (f.merge g)) ∧
    ∀ e : CastErrors, CastErrors.merge Dictionary.empty e = e ∧ e.merge Dictionary.empty = e := by
  refine ⟨a.errors_eq, ⟨a.errors.bindings, fun other => ?_, shows_bindings a.errors⟩,
    merge_assoc, fun e => ⟨Dictionary.empty_union, Dictionary.union_empty⟩⟩
  rw [a.errors_eq]
  exact isListing_iff

/-- The later row of a path wins, and the paths come in their order. -/
example :
    let first : Assembly := .group
      [("name", .typeMismatch "1" "String"), ("born", .typeMismatch "'x'" "Number")]
    let second : Assembly := .group [("name", .shapeMismatch "'Axl'" "Object")]
    (first.merge second).errors.message =
      "born: Could not cast 'x' to Number, name: Could not cast 'Axl' to Object" := by
  decide

end TypedDocs.CastErrors
