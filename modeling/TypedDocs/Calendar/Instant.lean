import TypedDocs.Calendar.Date
import TypedDocs.Number.Decimal
import TypedDocs.Text.Blank

/-!
# Instants

An instant is a minute of universal time, a second and a millisecond; the second
may be a leap second, numbered 60. A text denotes an instant in the form of
RFC 3339, or as a bare date, which means its first moment. A number of
milliseconds counts from the start of 1970. The written form is RFC 3339 in
universal time with three decimals; an instant off the clock, which is known to the
nanosecond, is written with as many decimals as it needs.
-/

namespace TypedDocs

structure Instant where
  /-- Minutes since the start of 1970. -/
  minute : Int
  second : Nat
  millisecond : Nat
deriving DecidableEq

namespace Instant

/-- The first moment of a date. -/
def ofDate (d : Date) : Instant := ⟨d.dayNumber * 1440, 0, 0⟩

/-- The instant a number of milliseconds after the start of 1970, within the years of dates. -/
def ofMillis? (ms : Int) : Option Instant :=
  let seconds := ms / 1000
  let i : Instant := ⟨seconds / 60, (seconds % 60).toNat, (ms % 1000).toNat⟩
  let year := (Date.ofDayNumber (i.minute / 1440)).year
  if Date.firstYear ≤ year ∧ year ≤ Date.lastYear then some i else none

/-- Exactly `count` digits, their value, and what follows them. -/
def fixedDigits? (count : Nat) (cs : List Char) : Option (Nat × List Char) :=
  let digits := cs.take count
  if digits.length = count ∧ digits.all isDecimalDigit then
    some (naturalOfDigits 10 digits, cs.drop count)
  else none

/-- One given character, and what follows it. -/
def charThen? (c : Char) : List Char → Option (List Char)
  | [] => none
  | d :: rest => if d = c then some rest else none

/-- Fractional seconds in milliseconds: a point and at least one digit, cut after the third. -/
def fraction? : List Char → Option (Nat × List Char)
  | '.' :: rest =>
    let (digits, rest) := spanDigits rest
    if digits.isEmpty then none
    else
      let three := (digits ++ ['0', '0']).take 3
      some (naturalOfDigits 10 three, rest)
  | cs => some (0, cs)

/-- An offset from universal time in minutes, which ends the text. -/
def offset? : List Char → Option Int
  | [c] => if c = 'Z' ∨ c = 'z' then some 0 else none
  | c :: rest => do
    let sign ← if c = '+' then some 1 else if c = '-' ∨ c = '\u2212' then some (-1) else none
    let (hours, rest) ← fixedDigits? 2 rest
    let rest ← charThen? ':' rest
    let (minutes, rest) ← fixedDigits? 2 rest
    if hours ≤ 23 ∧ minutes ≤ 59 ∧ rest = [] then some (sign * (hours * 60 + minutes : Nat))
    else none
  | [] => none

/-- Date, time and offset in the form of RFC 3339. A blank may stand for the `T`. -/
def parseRfc3339? (cs : List Char) : Option Instant := do
  let (year, cs) ← fixedDigits? 4 cs
  let cs ← charThen? '-' cs
  let (month, cs) ← fixedDigits? 2 cs
  let cs ← charThen? '-' cs
  let (day, cs) ← fixedDigits? 2 cs
  let cs ← match cs with
    | c :: rest => if c = 'T' ∨ c = 't' ∨ c = ' ' then some rest else none
    | [] => none
  let (hour, cs) ← fixedDigits? 2 cs
  let cs ← charThen? ':' cs
  let (minute, cs) ← fixedDigits? 2 cs
  let cs ← charThen? ':' cs
  let (second, cs) ← fixedDigits? 2 cs
  let (millisecond, cs) ← fraction? cs
  let offset ← offset? cs
  let date : Date := ⟨year, month, day⟩
  if date.isValid ∧ hour ≤ 23 ∧ minute ≤ 59 ∧ second ≤ 60 then
    some ⟨date.dayNumber * 1440 + (hour * 60 + minute : Nat) - offset, second, millisecond⟩
  else none

/-- Between one and `most` digits after any blanks, their value, and what follows them. -/
def looseDigits? (most : Nat) (cs : List Char) : Option (Nat × List Char) :=
  let cs := trimStart cs
  let digits := (cs.takeWhile isDecimalDigit).take most
  if digits.isEmpty then none else some (naturalOfDigits 10 digits, cs.drop digits.length)

/-- A year: up to four digits, or a sign with any number of digits directly after it. -/
def year? (cs : List Char) : Option (Int × List Char) :=
  match trimStart cs with
  | c :: rest =>
    if c = '+' ∨ c = '-' then
      let (digits, rest) := spanDigits rest
      if digits.isEmpty then none
      else
        let n : Int := naturalOfDigits 10 digits
        some (if c = '-' then -n else n, rest)
    else (looseDigits? 4 (c :: rest)).map fun (n, rest) => (n, rest)
  | [] => none

/-- Year, month and day between hyphens; each may have blanks before it. -/
def parseDate? (cs : List Char) : Option Date := do
  let (year, cs) ← year? cs
  let cs ← charThen? '-' cs
  let (month, cs) ← looseDigits? 2 cs
  let cs ← charThen? '-' cs
  let (day, cs) ← looseDigits? 2 cs
  let date : Date := ⟨year, month, day⟩
  if cs = [] ∧ date.isValid then some date else none

/-- The instant a text denotes, blanks around it aside. -/
def parse? (text : String) : Option Instant :=
  let cs := trim text.toList
  match parseRfc3339? cs with
  | some i => some i
  | none => (parseDate? cs).map ofDate

/-- A number with at least `width` digits. -/
def padded (width n : Nat) : String :=
  let digits := Nat.toDigits 10 n
  String.ofList (List.replicate (width - digits.length) '0' ++ digits)

/-- A year: four digits, and a sign if it lies outside them. -/
def yearText (year : Int) : String :=
  if 0 ≤ year ∧ year ≤ 9999 then padded 4 year.toNat
  else (if year < 0 then "-" else "+") ++ padded 4 year.natAbs

/-- The date and the time down to the second, in universal time. -/
def secondText (i : Instant) : String :=
  let date := Date.ofDayNumber (i.minute / 1440)
  let minuteOfDay := (i.minute % 1440).toNat
  yearText date.year ++ "-" ++ padded 2 date.month ++ "-" ++ padded 2 date.day ++ "T" ++
    padded 2 (minuteOfDay / 60) ++ ":" ++ padded 2 (minuteOfDay % 60) ++ ":" ++ padded 2 i.second

/-- The written form, in universal time and with three decimals. -/
def text (i : Instant) : String := i.secondText ++ "." ++ padded 3 i.millisecond ++ "Z"

/-- A part of a second in nanoseconds: no decimals, or three, six or nine, if fewer do not do. -/
def decimalsText (nanos : Nat) : String :=
  if nanos = 0 then ""
  else if nanos % 1000000 = 0 then "." ++ padded 3 (nanos / 1000000)
  else if nanos % 1000 = 0 then "." ++ padded 6 (nanos / 1000)
  else "." ++ padded 9 nanos

/-- The written form of a number of nanoseconds after the start of 1970, with its offset from
universal time. -/
def clockText? (nanos : Int) : Option String :=
  (ofMillis? (nanos / 1000000)).map fun i =>
    i.secondText ++ decimalsText (nanos % 1000000000).toNat ++ "+00:00"

end Instant

end TypedDocs
