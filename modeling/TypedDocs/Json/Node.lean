import TypedDocs.Json.Value

/-!
# Reading JSON text

Reading has two steps. `Node.parse?` turns a text into a tree that holds every
member and numeral as written. `Node.toValue?` turns such a tree into a value: it
refuses numerals that overflow, escapes that name no character, and trees nested
deeper than allowed, and it settles repeated members. A reader that only skips a
part of the text needs the first step alone.
-/

namespace TypedDocs

/-- JSON as written. A string is `none` when one of its escapes is half a surrogate pair. -/
inductive Node where
  | null
  | bool (b : Bool)
  | number (numeral : Decimal) (plain : Bool)
  | string (s : Option String)
  | array (items : List Node)
  | object (members : List (Option String × Node))

namespace Node

def isBlank (c : Char) : Bool := c = ' ' || c = '\n' || c = '\t' || c = '\r'

def skipBlanks (cs : List Char) : List Char := cs.dropWhile isBlank

/-- A character of a string, or the UTF-16 unit of a four-digit escape. -/
inductive Piece where
  | char (c : Char)
  | unit (n : Nat)

def hexUnit? (digits : List Char) : Option Nat :=
  if digits.all (isDigitOf 16) then some (naturalOfDigits 16 digits) else none

/-- The pieces of a string up to its closing quote, and what follows it. -/
def pieces? : List Char → Option (List Piece × List Char)
  | [] => none
  | '"' :: rest => some ([], rest)
  | '\\' :: 'u' :: a :: b :: c :: d :: rest => do
    let n ← hexUnit? [a, b, c, d]
    let (ps, rest) ← pieces? rest
    some (.unit n :: ps, rest)
  | '\\' :: e :: rest => do
    let c ← match e with
      | '"' => some '"'
      | '\\' => some '\\'
      | '/' => some '/'
      | 'b' => some '\x08'
      | 'f' => some '\x0c'
      | 'n' => some '\n'
      | 'r' => some '\r'
      | 't' => some '\t'
      | _ => none
    let (ps, rest) ← pieces? rest
    some (.char c :: ps, rest)
  | c :: rest =>
    if c.toNat < 0x20 ∨ c = '\\' then none
    else do
      let (ps, rest) ← pieces? rest
      some (.char c :: ps, rest)

/-- Joins surrogate pairs; half a pair makes the text unreadable. -/
def joinPieces? : List Piece → Option (List Char)
  | [] => some []
  | .char c :: rest => (joinPieces? rest).map (c :: ·)
  | .unit a :: .unit b :: rest =>
    if 0xD800 ≤ a ∧ a < 0xDC00 then
      if 0xDC00 ≤ b ∧ b < 0xE000 then
        (joinPieces? rest).map (Char.ofNat (0x10000 + (a - 0xD800) * 0x400 + (b - 0xDC00)) :: ·)
      else none
    else if 0xDC00 ≤ a ∧ a < 0xE000 then none
    else (joinPieces? (.unit b :: rest)).map (Char.ofNat a :: ·)
  | .unit a :: rest =>
    if 0xD800 ≤ a ∧ a < 0xE000 then none else (joinPieces? rest).map (Char.ofNat a :: ·)

def stringText? (pieces : List Piece) : Option String := (joinPieces? pieces).map String.ofList

/-- The sign of a numeral; there is none for plus. -/
def signPart (cs : List Char) : Bool × List Char :=
  match cs with
  | '-' :: rest => (true, rest)
  | _ => (false, cs)

/-- The digits before the point, with no leading zeros. -/
def wholePart? (cs : List Char) : Option (List Char × List Char) :=
  match cs with
  | '0' :: rest => some (['0'], rest)
  | _ =>
    let (digits, rest) := spanDigits cs
    if digits.isEmpty then none else some (digits, rest)

/-- The digits after the point, if there is one. -/
def fractionPart? (cs : List Char) : Option (List Char × List Char) :=
  match cs with
  | '.' :: rest =>
    let (digits, rest) := spanDigits rest
    if digits.isEmpty then none else some (digits, rest)
  | _ => some ([], cs)

/-- The exponent, and whether it is there. -/
def markedPart? (cs : List Char) : Option (Int × Bool × List Char) :=
  match cs with
  | c :: rest =>
    if c = 'e' ∨ c = 'E' then
      let (minus, rest) := takeSign rest
      let (digits, rest) := spanDigits rest
      if digits.isEmpty then none
      else
        let n : Int := naturalOfDigits 10 digits
        some (if minus then -n else n, true, rest)
    else some (0, false, cs)
  | [] => some (0, false, [])

/-- A numeral, and whether it is an integer written plainly. -/
def numeral? (cs : List Char) : Option ((Decimal × Bool) × List Char) := do
  let (negative, cs) := signPart cs
  let (whole, cs) ← wholePart? cs
  let (fraction, cs) ← fractionPart? cs
  let (exponent, marked, cs) ← markedPart? cs
  some ((⟨negative, whole, fraction, exponent⟩, fraction.isEmpty && !marked), cs)

/-- A keyword at the head of the text. -/
def keyword? (word : List Char) (node : Node) (cs : List Char) : Option (Node × List Char) :=
  if word.isPrefixOf cs then some (node, cs.drop word.length) else none

mutual
/-- A value and what follows it. The fuel bounds nesting and length together. -/
def value? : Nat → List Char → Option (Node × List Char)
  | 0, _ => none
  | fuel + 1, cs =>
    match skipBlanks cs with
    | [] => none
    | 'n' :: rest => keyword? ['u', 'l', 'l'] .null rest
    | 't' :: rest => keyword? ['r', 'u', 'e'] (.bool true) rest
    | 'f' :: rest => keyword? ['a', 'l', 's', 'e'] (.bool false) rest
    | '"' :: rest => do
      let (ps, rest) ← pieces? rest
      some (.string (stringText? ps), rest)
    | '[' :: rest =>
      match skipBlanks rest with
      | ']' :: rest => some (.array [], rest)
      | rest => do
        let (items, rest) ← items? fuel rest
        some (.array items, rest)
    | '{' :: rest =>
      match skipBlanks rest with
      | '}' :: rest => some (.object [], rest)
      | rest => do
        let (members, rest) ← members? fuel rest
        some (.object members, rest)
    | cs => do
      let ((numeral, plain), rest) ← numeral? cs
      some (.number numeral plain, rest)
/-- Items up to the closing bracket. -/
def items? : Nat → List Char → Option (List Node × List Char)
  | 0, _ => none
  | fuel + 1, cs => do
    let (item, rest) ← value? fuel cs
    match skipBlanks rest with
    | ']' :: rest => some ([item], rest)
    | ',' :: rest => do
      let (items, rest) ← items? fuel rest
      some (item :: items, rest)
    | _ => none
/-- Members up to the closing brace. -/
def members? : Nat → List Char → Option (List (Option String × Node) × List Char)
  | 0, _ => none
  | fuel + 1, cs =>
    match skipBlanks cs with
    | '"' :: rest => do
      let (ps, rest) ← pieces? rest
      match skipBlanks rest with
      | ':' :: rest => do
        let (item, rest) ← value? fuel rest
        let member := (stringText? ps, item)
        match skipBlanks rest with
        | '}' :: rest => some ([member], rest)
        | ',' :: rest => do
          let (members, rest) ← members? fuel rest
          some (member :: members, rest)
        | _ => none
      | _ => none
    | _ => none
end

/-- Reads a whole text: one value with nothing but blanks around it. -/
def parse? (text : String) : Option Node :=
  let cs := text.toList
  match value? (2 * cs.length + 2) cs with
  | some (node, rest) => if (skipBlanks rest).isEmpty then some node else none
  | none => none

/-- An integer if it is written plainly and fits, and the nearest double otherwise. -/
def number? (numeral : Decimal) (plain : Bool) : Option Number :=
  let n : Int := numeral.coefficient
  let integer := if numeral.negative && n = 0 then none
    else if plain then Number.ofInt? (if numeral.negative then -n else n) else none
  match integer with
  | some n => some n
  | none => numeral.toBinary64?.map .double

mutual
/-- The value a tree stands for, if no more than `room` containers are nested in each other. -/
def toValue? (room : Nat) : Node → Option Value
  | .null => some .null
  | .bool b => some (.bool b)
  | .number numeral plain => (number? numeral plain).map .number
  | .string s => s.map .string
  | .array items => match room with
    | 0 => none
    | room + 1 => (itemValues? room items).map .array
  | .object members => match room with
    | 0 => none
    | room + 1 => (memberValues? room members).map fun ms => .object (Fields.ofMembers ms)
/-- The values of all items, if each has one. -/
def itemValues? (room : Nat) : List Node → Option (List Value)
  | [] => some []
  | x :: xs => do
    let v ← toValue? room x
    let vs ← itemValues? room xs
    some (v :: vs)
/-- The values of all members, if each has one. -/
def memberValues? (room : Nat) : List (Option String × Node) → Option (List (String × Value))
  | [] => some []
  | (k, x) :: xs => do
    let k ← k
    let v ← toValue? room x
    let vs ← memberValues? room xs
    some ((k, v) :: vs)
end

end Node

/-- How many containers a JSON document may nest in each other. -/
def maxNesting : Nat := 127

/-- The value a JSON text denotes. -/
def Value.ofJson? (text : String) : Option Value := (Node.parse? text).bind (Node.toValue? maxNesting)

end TypedDocs
