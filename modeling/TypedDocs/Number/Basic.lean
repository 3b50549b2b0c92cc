import TypedDocs.Number.Shortest

/-!
# Numbers of two kinds and their texts

A number is an integer of the signed or unsigned 64-bit range, or a finite
double; `1` and `1.0` are different numbers. `text` is the form written into
documents, `plainText` the form used in messages and in strings made from
numbers, where an integral double of moderate size has no fraction.
-/

namespace TypedDocs

/-- The integers a document can hold: those of a signed or an unsigned 64-bit word. -/
abbrev InWordRange (n : Int) : Prop := -9223372036854775808 ≤ n ∧ n < 18446744073709551616

inductive Number where
  | integer (n : Int) (inRange : InWordRange n)
  | double (x : Binary64)
deriving DecidableEq

namespace Binary64

/-- Digits `d1d2…` written with a point after the first `count` of them; zeros fill both sides. -/
def positional (digits : List Char) (count : Int) : String :=
  if count ≤ 0 then
    "0." ++ String.ofList (List.replicate (-count).toNat '0' ++ digits)
  else
    let n := count.toNat
    if digits.length ≤ n then
      String.ofList (digits ++ List.replicate (n - digits.length) '0') ++ ".0"
    else String.ofList (digits.take n) ++ "." ++ String.ofList (digits.drop n)

/-- One digit, a point if more follow, and the power of ten with its sign. -/
def scientific (digits : List Char) (exponent : Int) : String :=
  let mantissa := match digits with
    | [] => ""
    | [c] => String.ofList [c]
    | c :: rest => String.ofList [c] ++ "." ++ String.ofList rest
  let sign := if exponent < 0 then "-" else "+"
  mantissa ++ "e" ++ sign ++ toString exponent.natAbs

/--
The fewest digits that read back. With `e` the exponent of the first digit, the notation is
positional for `-5 ≤ e < 16`, where an integral value ends in `.0`, and scientific otherwise.
-/
def text (x : Binary64) : String :=
  let sign := if x.negative then "-" else ""
  if x.isZero then sign ++ "0.0"
  else
    let d := x.shortest
    let digits := Nat.toDigits 10 d.digits
    let e : Int := d.exponent + digits.length - 1
    sign ++ if -5 ≤ e ∧ e < 16 then positional digits (e + 1) else scientific digits e

/-- An integral double below `10 ^ 21` as its exact integer digits, and any other by `text`. -/
def plainText (x : Binary64) : String :=
  if x.isIntegral && x.magnitude < tenTo 21 then
    (if x.negative then "-" else "") ++ toString x.magnitude
  else x.text

end Binary64

namespace Number

/-- The text of a number inside a document. -/
def text : Number → String
  | integer n _ => toString n
  | double x => x.text

/-- The text of a number inside a message, or as a string value. -/
def plainText : Number → String
  | integer n _ => toString n
  | double x => x.plainText

def ofInt? (n : Int) : Option Number :=
  if h : InWordRange n then some (.integer n h) else none

/-- Neither the integer 0 nor a zero double. -/
def isNonzero : Number → Bool
  | integer n _ => n ≠ 0
  | double x => !x.isZero

/-- Integers up to this magnitude are doubles without exception. -/
def maxSafeInteger : Nat := 9007199254740991

/-- A double as a number: an integer if it is integral and safe, and itself otherwise. -/
def ofBinary64 (x : Binary64) : Number :=
  if h : x.isIntegral ∧ InWordRange x.truncate ∧ x.magnitude ≤ maxSafeInteger
  then .integer x.truncate h.2.1 else .double x

end Number

end TypedDocs
