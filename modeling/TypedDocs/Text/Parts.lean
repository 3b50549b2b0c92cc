/-!
# Cutting text at a mark

A text is cut at every occurrence of a mark. There is always one part more than
there are marks, so parts may be empty, and the parts with marks put back between
them give the text again.
-/

namespace TypedDocs

/-- Cuts at every `mark`. -/
def partsAt (mark : Char) : List Char → List (List Char)
  | [] => [[]]
  | c :: rest =>
    if c = mark then [] :: partsAt mark rest
    else match partsAt mark rest with
      | [] => [[c]]
      | part :: parts => (c :: part) :: parts

theorem partsAt_ne_nil (mark : Char) (cs : List Char) : partsAt mark cs ≠ [] := by
  cases cs with
  | nil => simp [partsAt]
  | cons c rest =>
    simp only [partsAt]
    split
    · simp
    · split <;> simp

end TypedDocs
