/-!
# Records in files

A record is a list of named members. Each name that matters may occur once; other
names may occur as they like. A member that is not there has a default, or the record
is unreadable without it.
-/

namespace TypedDocs.Record

variable {α β : Type}

/-- The members of one name. -/
def named (members : List (String × α)) (name : String) : List α :=
  (members.filter (·.1 = name)).map (·.2)

/-- A member read by `f`; it falls back on `absent` if it is not there. -/
def field? (members : List (String × α)) (name : String) (absent : Option β) (f : α → Option β) :
    Option β :=
  match named members name with
  | [] => absent
  | [x] => f x
  | _ => none

end TypedDocs.Record
