import TypedDocs.Number.Decimal

/-!
# The fewest digits that read back

A nonzero double is written with the fewest decimal digits that still round to
it. The reals that round to `m · 2 ^ e` form an interval, whose ends belong to it
exactly when `m` is even. For one digit, two digits, and so on, the two numbers of
that length around the double are tried; the first length with a hit wins, and of
two hits the nearer one, or the even one if both are equally near. Seventeen
digits always suffice.
-/

namespace TypedDocs

/-- The number `digits · 10 ^ exponent`. -/
structure ScaledDigits where
  digits : Nat
  exponent : Int
deriving DecidableEq

namespace Binary64

/-- Reals between the two ends round to the double; the ends do if `closed`. -/
structure RoundingInterval where
  low : Nat
  high : Nat
  den : Nat
  closed : Bool

/-- The interval of a positive magnitude, in quarters of the double's last place. -/
def roundingInterval (x : Binary64) : RoundingInterval :=
  let quarter := x.exponent - 2
  let up := twoTo quarter.toNat
  let below := if x.significand = leastSignificand ∧ -1074 < x.exponent then 1 else 2
  { low := (4 * x.significand - below) * up
    high := (4 * x.significand + 2) * up
    den := twoTo (-quarter).toNat
    closed := x.significand % 2 = 0 }

/-- Whether `digits · 10 ^ exponent` rounds to the double. -/
def RoundingInterval.holds (i : RoundingInterval) (d : ScaledDigits) : Bool :=
  let scale := tenTo (-d.exponent).toNat
  let a := d.digits * tenTo d.exponent.toNat * i.den
  if i.closed then decide (i.low * scale ≤ a ∧ a ≤ i.high * scale)
  else decide (i.low * scale < a ∧ a < i.high * scale)

/-- The exponent `k` with `10 ^ k ≤ num / den < 10 ^ (k + 1)`, for positive arguments. -/
def decimalExponent (num den : Nat) : Int :=
  let k : Int := (decimalLength num : Int) - decimalLength den
  if num * tenTo (-k).toNat < den * tenTo k.toNat then k - 1 else k

/-- The better of the two numbers with last place `10 ^ exponent` around the double. -/
def hitAt? (x : Binary64) (exponent : Int) : Option ScaledDigits :=
  let i := x.roundingInterval
  let num := x.numerator * tenTo (-exponent).toNat
  let den := x.denominator * tenTo exponent.toNat
  let below : ScaledDigits := ⟨num / den, exponent⟩
  let above : ScaledDigits := ⟨num / den + 1, exponent⟩
  match i.holds below, i.holds above with
  | true, true =>
    let r := num % den
    if 2 * r < den || (2 * r = den && below.digits % 2 = 0) then some below else some above
  | true, false => some below
  | false, true => some above
  | false, false => none

/-- Drops trailing zeros; the fuel is the number of digits. -/
def stripZeros : Nat → ScaledDigits → ScaledDigits
  | 0, d => d
  | fuel + 1, d =>
    if d.digits % 10 = 0 ∧ d.digits ≠ 0 then stripZeros fuel ⟨d.digits / 10, d.exponent + 1⟩ else d

/-- The fewest digits that round to a nonzero double, without its sign. -/
def shortest (x : Binary64) : ScaledDigits :=
  let top := decimalExponent x.numerator x.denominator
  let hit := (List.range 17).findSome? fun (n : Nat) => x.hitAt? (top - n)
  let d := hit.getD ⟨x.numerator / x.denominator, 0⟩
  stripZeros (decimalLength d.digits) d

end Binary64

end TypedDocs
