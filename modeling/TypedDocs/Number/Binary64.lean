/-!
# Finite binary64 numbers, exactly

A `Binary64` is a sign, a significand and a power of two, in the one canonical
form of each finite double. There is no infinity and no NaN, so an operation
whose result has no finite double returns `none`. All arithmetic is on naturals:
`ofRatio?` rounds an exact quotient once, to the nearest double and on a tie to
the even one.
-/

namespace TypedDocs

/-- The `k`-th power of two. -/
def twoTo (k : Nat) : Nat := Nat.pow 2 k

/-- The significands of 53 bits lie from here up to twice this number. -/
def leastSignificand : Nat := 4503599627370496

/-- One form for each double: the significand has 53 bits, or fewer at the least exponent. -/
def IsCanonical (significand : Nat) (exponent : Int) : Prop :=
  significand < 2 * leastSignificand ∧ -1074 ≤ exponent ∧ exponent ≤ 971 ∧
    (leastSignificand ≤ significand ∨ exponent = -1074)

instance (significand : Nat) (exponent : Int) : Decidable (IsCanonical significand exponent) :=
  inferInstanceAs (Decidable (_ ∧ _ ∧ _ ∧ _))

/-- The finite double `± significand · 2 ^ exponent`. Both zeros are present. -/
structure Binary64 where
  negative : Bool
  significand : Nat
  exponent : Int
  canonical : IsCanonical significand exponent
deriving DecidableEq

namespace Binary64

/-- Zero, with its sign. -/
def zero (negative : Bool) : Binary64 := ⟨negative, 0, -1074, by decide⟩

def ofParts? (negative : Bool) (significand : Nat) (exponent : Int) : Option Binary64 :=
  if h : IsCanonical significand exponent then some ⟨negative, significand, exponent, h⟩ else none

/-- `a / b` rounded to the nearest natural; a tie goes to the even one. -/
def divRoundEven (a b : Nat) : Nat :=
  let q := a / b
  let r := a % b
  if 2 * r < b then q
  else if b < 2 * r then q + 1
  else if q % 2 = 0 then q else q + 1

/-- The exponent `k` with `2 ^ k ≤ num / den < 2 ^ (k + 1)`, for positive arguments. -/
def binaryExponent (num den : Nat) : Int :=
  let k : Int := (Nat.log2 num : Int) - Nat.log2 den
  if num * twoTo (-k).toNat < den * twoTo k.toNat then k - 1 else k

/-- The double nearest to `± num / den`, if that is finite. `den` is positive. -/
def ofRatio? (negative : Bool) (num den : Nat) : Option Binary64 :=
  if num = 0 then some (zero negative)
  else
    let e := max (binaryExponent num den - 52) (-1074)
    let m := divRoundEven (num * twoTo (-e).toNat) (den * twoTo e.toNat)
    if m = 2 * leastSignificand then ofParts? negative leastSignificand (e + 1)
    else ofParts? negative m e

/-- The double nearest to an integer. -/
def ofInt? (n : Int) : Option Binary64 := ofRatio? (n < 0) n.natAbs 1

def isZero (x : Binary64) : Bool := x.significand = 0

/-- The absolute value as an exact quotient. -/
def numerator (x : Binary64) : Nat := x.significand * twoTo x.exponent.toNat
def denominator (x : Binary64) : Nat := twoTo (-x.exponent).toNat

/-- No fraction. -/
def isIntegral (x : Binary64) : Bool := x.numerator % x.denominator = 0

/-- The absolute value without its fraction. -/
def magnitude (x : Binary64) : Nat := x.numerator / x.denominator

/-- The value without its fraction. -/
def truncate (x : Binary64) : Int := if x.negative then -x.magnitude else x.magnitude

end Binary64

end TypedDocs
