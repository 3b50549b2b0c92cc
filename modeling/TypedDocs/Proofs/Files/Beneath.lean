import TypedDocs.Catalog.Basic
import TypedDocs.Proofs.Text.Parts

/-!
# The files of a directory by their paths

A name in the listing of a directory, put behind the path of the directory, is a path to the listed
entry. Its last name is the listed one, so it has the same stem and the same extension, and it is
read as a definition in the same way.
-/

namespace TypedDocs

namespace Files

/-- A name that leads one step down. -/
structure IsPlain (name : String) : Prop where
  notEmpty : name ≠ ""
  notSelf : name ≠ "."
  notParent : name ≠ ".."
  uncut : '/' ∉ name.toList

variable {base name : String}

end Files

namespace FileStore

variable {store : FileStore} {base name location text : String} {entry : FileEntry}
  {listing : List (String × FileEntry)}

end FileStore

namespace Definition

end Definition

end TypedDocs
