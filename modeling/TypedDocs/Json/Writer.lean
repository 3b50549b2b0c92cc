import TypedDocs.Json.Value

/-!
# Writing JSON text

`compact` writes a value without blanks, `pretty` with one item or field a line
and two blanks for each level. Both escape only what JSON requires.
-/

namespace TypedDocs

/-- One hexadecimal digit in lower case. -/
def hexDigit (n : Nat) : Char := Nat.digitChar (n % 16)

/-- A character inside a JSON string. -/
def jsonChar (c : Char) : List Char :=
  if c = '"' then ['\\', '"']
  else if c = '\\' then ['\\', '\\']
  else if c = '\x08' then ['\\', 'b']
  else if c = '\x0c' then ['\\', 'f']
  else if c = '\n' then ['\\', 'n']
  else if c = '\r' then ['\\', 'r']
  else if c = '\t' then ['\\', 't']
  else if c.toNat < 0x20 then
    ['\\', 'u', '0', '0', hexDigit (c.toNat / 16), hexDigit c.toNat]
  else [c]

/-- A string with its quotes. -/
def jsonString (s : String) : String :=
  String.ofList ('"' :: s.toList.flatMap jsonChar ++ ['"'])

namespace Value

mutual
/-- The text of a value without blanks. -/
def compact : Value → String
  | .null => "null"
  | .bool b => if b then "true" else "false"
  | .number n => n.text
  | .string s => jsonString s
  | .array items => "[" ++ String.intercalate "," (compactItems items) ++ "]"
  | .object fields => "\x7b" ++ String.intercalate "," (compactFields fields) ++ "\x7d"
/-- The texts of the items. -/
def compactItems : List Value → List String
  | [] => []
  | x :: xs => compact x :: compactItems xs
/-- The texts of the fields. -/
def compactFields : List (String × Value) → List String
  | [] => []
  | (k, x) :: xs => (jsonString k ++ ":" ++ compact x) :: compactFields xs
end

/-- A container over several lines: its parts one a line, between two brackets. -/
def bracketed (opening closing : String) (depth : Nat) (parts : List String) : String :=
  if parts.isEmpty then opening ++ closing
  else
    let indent (n : Nat) := String.ofList (List.replicate (2 * n) ' ')
    opening ++ "\n" ++ indent (depth + 1) ++
      String.intercalate (",\n" ++ indent (depth + 1)) parts ++ "\n" ++ indent depth ++ closing

mutual
/-- The text of a value that stands `depth` levels deep. -/
def prettyAt (depth : Nat) : Value → String
  | .null => "null"
  | .bool b => if b then "true" else "false"
  | .number n => n.text
  | .string s => jsonString s
  | .array items => bracketed "[" "]" depth (prettyItems (depth + 1) items)
  | .object fields => bracketed "\x7b" "\x7d" depth (prettyFields (depth + 1) fields)
/-- The texts of the items. -/
def prettyItems (depth : Nat) : List Value → List String
  | [] => []
  | x :: xs => prettyAt depth x :: prettyItems depth xs
/-- The texts of the fields. -/
def prettyFields (depth : Nat) : List (String × Value) → List String
  | [] => []
  | (k, x) :: xs => (jsonString k ++ ": " ++ prettyAt depth x) :: prettyFields depth xs
end

/-- The text of a value over several lines, without a final newline. -/
def pretty (v : Value) : String := prettyAt 0 v

end Value

end TypedDocs
