import TypedDocs.Number.Binary64

/-!
# Decimal numerals and the double each one denotes

A `Decimal` is a numeral as written: sign, digits before the point, digits after
it, power of ten. `toBinary64?` rounds the exact quotient once. Numerals far
outside the range of doubles are settled by their digit count alone, so that no
huge power of ten is ever computed.
-/

namespace TypedDocs

/-- The natural number a list of digit characters denotes in a base up to 36. -/
def digitValue (c : Char) : Nat :=
  if '0' ≤ c ∧ c ≤ '9' then c.toNat - '0'.toNat
  else if 'a' ≤ c ∧ c ≤ 'z' then c.toNat - 'a'.toNat + 10
  else if 'A' ≤ c ∧ c ≤ 'Z' then c.toNat - 'A'.toNat + 10
  else 36

/-- A digit of the given base, of either case. -/
def isDigitOf (base : Nat) (c : Char) : Bool := digitValue c < base

/-- An ASCII decimal digit. -/
def isDecimalDigit (c : Char) : Bool := '0' ≤ c && c ≤ '9'

def naturalOfDigits (base : Nat) (digits : List Char) : Nat :=
  digits.foldl (fun acc c => acc * base + digitValue c) 0

/-- How many decimal digits a natural number is written with. -/
def decimalLength (n : Nat) : Nat := (Nat.toDigits 10 n).length

/-- The `k`-th power of ten. -/
def tenTo (k : Nat) : Nat := Nat.pow 10 k

structure Decimal where
  negative : Bool
  whole : List Char
  fraction : List Char
  exponent : Int
deriving DecidableEq

namespace Decimal

/-- All digits as one natural number. -/
def coefficient (d : Decimal) : Nat := naturalOfDigits 10 (d.whole ++ d.fraction)

/-- The power of ten that `coefficient` is multiplied by. -/
def scale (d : Decimal) : Int := d.exponent - d.fraction.length

/-- The double nearest to the numeral, or `none` if it rounds to infinity. -/
def toBinary64? (d : Decimal) : Option Binary64 :=
  let n := d.coefficient
  if n = 0 then some (.zero d.negative)
  else
    let top := d.scale + decimalLength n
    if 400 < top then none
    else if top < -400 then some (.zero d.negative)
    else Binary64.ofRatio? d.negative (n * tenTo d.scale.toNat) (tenTo (-d.scale).toNat)

end Decimal

/-- Splits off the longest run of decimal digits. -/
def spanDigits (cs : List Char) : List Char × List Char :=
  (cs.takeWhile isDecimalDigit, cs.dropWhile isDecimalDigit)

/-- An optional sign; `true` stands for minus. -/
def takeSign : List Char → Bool × List Char
  | '-' :: rest => (true, rest)
  | '+' :: rest => (false, rest)
  | cs => (false, cs)

/-- The exponent that ends a numeral: nothing, or `e` with an optional sign and at least one digit. -/
def exponentPart? : List Char → Option Int
  | [] => some 0
  | c :: rest =>
    if c = 'e' ∨ c = 'E' then
      let (negative, digits) := takeSign rest
      if digits.isEmpty || !digits.all isDecimalDigit then none
      else
        let n : Int := naturalOfDigits 10 digits
        some (if negative then -n else n)
    else none

/--
A decimal numeral with an optional sign, a point with digits on at least one side of it or no
point at all, and an optional exponent. The whole text has to be used up.
-/
def Decimal.parse? (cs : List Char) : Option Decimal :=
  let (negative, unsigned) := takeSign cs
  let (whole, afterWhole) := spanDigits unsigned
  let (fraction, afterFraction) := match afterWhole with
    | '.' :: rest => spanDigits rest
    | rest => ([], rest)
  if whole.isEmpty && fraction.isEmpty then none
  else (exponentPart? afterFraction).map fun e => ⟨negative, whole, fraction, e⟩

end TypedDocs
