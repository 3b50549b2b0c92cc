import TypedDocs.Yaml.Node
import TypedDocs.Json.Value

/-!
# The values of YAML nodes

A plain scalar without a tag is null, a boolean, a number or a string, by its text
alone. A quoted one is a string. A tag of the core kinds decides for a scalar what
its text has to be; a local tag makes a node that has no value. The keys of a mapping
are scalars and are taken as text, whatever they would be as values. Doubles that a
document cannot hold become null.
-/

namespace TypedDocs.Yaml

def isNullText (text : String) : Bool :=
  text = "null" || text = "Null" || text = "NULL" || text = "~"

def boolOfText? (text : String) : Option Bool :=
  if text = "true" ∨ text = "True" ∨ text = "TRUE" then some true
  else if text = "false" ∨ text = "False" ∨ text = "FALSE" then some false
  else none

/-- More than one digit with a zero at the head, behind an optional sign: a text, not a number. -/
def isPaddedDigits (cs : List Char) : Bool :=
  match (takeSign cs).2 with
  | '0' :: d :: rest => (d :: rest).all isDecimalDigit
  | _ => false

/-- Digits of a base, at least one. -/
def digitsOf? (base : Nat) (cs : List Char) : Option Nat :=
  if cs.isEmpty || !cs.all (isDigitOf base) then none else some (naturalOfDigits base cs)

/-- The magnitude of an integer behind its sign. -/
def magnitude? : List Char → Option Nat
  | '0' :: 'x' :: digits => digitsOf? 16 digits
  | '0' :: 'o' :: digits => digitsOf? 8 digits
  | '0' :: 'b' :: digits => digitsOf? 2 digits
  | cs => if isPaddedDigits cs then none else digitsOf? 10 cs

/-- The integer that a text denotes, of any size. -/
def integer? (cs : List Char) : Option Int :=
  match cs with
  | '-' :: rest => (magnitude? rest).map fun n => -(n : Int)
  | '+' :: rest => (magnitude? rest).map fun n => (n : Int)
  | cs => (magnitude? cs).map fun n => (n : Int)

/-- The integers that are read as such: up to 128 bits, with or without a sign. -/
def isReadable (n : Int) : Bool :=
  -170141183460469231731687303715884105728 ≤ n && n < 340282366920938463463374607431768211456

/-- The texts of infinity and of no number. -/
def isUnbounded (cs : List Char) : Bool :=
  let infinity (cs : List Char) : Bool :=
    [".inf", ".Inf", ".INF"].contains (String.ofList cs)
  (match cs with
    | '+' :: rest => infinity rest
    | '-' :: rest => infinity rest
    | cs => infinity cs) || [".nan", ".NaN", ".NAN"].contains (String.ofList cs)

/-- A double, or null where it has no bounds. -/
def double? (cs : List Char) : Option Value :=
  if isUnbounded cs then some .null
  else ((Decimal.parse? cs).bind Decimal.toBinary64?).map fun x => .number (.double x)

/-- The value of a plain scalar. Integers too large for a document have none. -/
def plainValue? (text : String) : Option Value :=
  let cs := text.toList
  if text.isEmpty || isNullText text then some .null
  else match boolOfText? text with
    | some b => some (.bool b)
    | none => match (integer? cs).filter isReadable with
      | some n => (Number.ofInt? n).map .number
      | none =>
        if isPaddedDigits cs then some (.string text)
        else some ((double? cs).getD (.string text))

/-- The name of a core kind, as a tag. -/
def coreTag (kind : String) : String := "tag:yaml.org,2002:" ++ kind

def isLocalTag (tag : Option String) : Bool := tag.any fun t => t.toList.head? = some '!'

/-- The value of a scalar. -/
def scalarValue? (tag : Option String) (plain : Bool) (text : String) : Option Value :=
  match tag with
  | none => if plain then plainValue? text else some (.string text)
  | some t =>
    if isLocalTag (some t) then none
    else if t = coreTag "bool" then (boolOfText? text).map .bool
    else if t = coreTag "int" then
      ((integer? text.toList).filter isReadable).bind fun n => (Number.ofInt? n).map .number
    else if t = coreTag "float" then double? text.toList
    else if t = coreTag "null" then if isNullText text then some .null else none
    else some (.string text)

/-- How many collections a document may nest in each other. -/
def maxNesting : Nat := 128

namespace Node

/-- The text of a scalar. -/
def text? : Node → Option String
  | .scalar _ _ text => some text
  | _ => none

mutual
/-- The value of a node, if no more than `room` collections are nested in each other. -/
def toValue? (room : Nat) : Node → Option Value
  | .scalar tag plain text => scalarValue? tag plain text
  | .sequence tag items => match room with
    | 0 => none
    | room + 1 => if isLocalTag tag then none else (itemValues? room items).map .array
  | .mapping tag entries => match room with
    | 0 => none
    | room + 1 =>
      if isLocalTag tag then none
      else (entryValues? room entries).map fun ms => .object (Fields.ofMembers ms)
/-- The values of all items, if each has one. -/
def itemValues? (room : Nat) : List Node → Option (List Value)
  | [] => some []
  | x :: xs => do
    let v ← toValue? room x
    let vs ← itemValues? room xs
    some (v :: vs)
/-- The members of all entries, if each has a name and a value. -/
def entryValues? (room : Nat) : List (Node × Node) → Option (List (String × Value))
  | [] => some []
  | (k, x) :: xs => do
    let key ← k.text?
    let v ← toValue? room x
    let ms ← entryValues? room xs
    some ((key, v) :: ms)
end

end Node

end TypedDocs.Yaml

namespace TypedDocs

/-- The value a YAML text denotes. -/
def Value.ofYaml? (text : String) : Option Value :=
  (Yaml.Node.parse? text).bind (Yaml.Node.toValue? Yaml.maxNesting)

end TypedDocs
