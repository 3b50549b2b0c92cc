import TypedDocs.Json.Value

/-!
# Values as literals in messages

A message shows the value it is about as a one-line literal: strings in quotes
that need no escape if one of three kinds does without, field names bare where
they are identifiers, and containers nested too deep as a mark. Line breaks and
tabs inside strings are escaped, so that no literal spans two lines.
-/

namespace TypedDocs

/-- Containers nested deeper than this are shown as a mark. -/
def literalDepth : Nat := 2

/-- The first of the three quotes that the text does not contain, or the first one. -/
def delimiter (cs : List Char) : Char :=
  if !cs.contains '\'' then '\''
  else if !cs.contains '"' then '"'
  else if !cs.contains '\x60' then '\x60'
  else '\''

/-- A character between delimiters. -/
def quotedChar (delim c : Char) : List Char :=
  if c = '\\' then ['\\', '\\']
  else if c = '\n' then ['\\', 'n']
  else if c = '\t' then ['\\', 't']
  else if c = '\r' then ['\\', 'r']
  else if c = delim then ['\\', c]
  else [c]

/-- A text between delimiters, escaped so that it can be read back. -/
def quoteChars (cs : List Char) : List Char :=
  let delim := delimiter cs
  delim :: cs.flatMap (quotedChar delim) ++ [delim]

def quote (s : String) : String := String.ofList (quoteChars s.toList)

def isAsciiLetter (c : Char) : Bool := ('a' ≤ c && c ≤ 'z') || ('A' ≤ c && c ≤ 'Z')

def isIdentifierStart (c : Char) : Bool := isAsciiLetter c || c = '_' || c = '$'

def isIdentifierRest (c : Char) : Bool := isIdentifierStart c || isDecimalDigit c

/-- Names that are shown without quotes. -/
def isIdentifier (s : String) : Bool :=
  match s.toList with
  | [] => false
  | c :: rest => isIdentifierStart c && rest.all isIdentifierRest

/-- A field name as shown in a literal. -/
def fieldLabel (key : String) : String := if isIdentifier key then key else quote key

namespace Value

mutual
/-- The literal of a value that stands `depth` levels deep. -/
def literalAt (depth : Nat) : Value → String
  | .null => "null"
  | .bool b => if b then "true" else "false"
  | .number n => n.plainText
  | .string s => quote s
  | .array [] => "[]"
  | .array (x :: xs) =>
    if literalDepth < depth then "[Array]"
    else "[ " ++ String.intercalate ", " (literalItems (depth + 1) (x :: xs)) ++ " ]"
  | .object [] => "\x7b\x7d"
  | .object (f :: fs) =>
    if literalDepth < depth then "[Object]"
    else "\x7b " ++ String.intercalate ", " (literalFields (depth + 1) (f :: fs)) ++ " \x7d"
/-- The literals of the items. -/
def literalItems (depth : Nat) : List Value → List String
  | [] => []
  | x :: xs => literalAt depth x :: literalItems depth xs
/-- The literals of the fields, each with its name. -/
def literalFields (depth : Nat) : List (String × Value) → List String
  | [] => []
  | (k, x) :: xs => (fieldLabel k ++ ": " ++ literalAt depth x) :: literalFields depth xs
end

/-- The one-line literal of a value. -/
def literal (v : Value) : String := literalAt 0 v

end Value

end TypedDocs
