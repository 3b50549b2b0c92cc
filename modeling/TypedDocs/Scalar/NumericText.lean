import TypedDocs.Number.Basic
import TypedDocs.Text.Blank

/-!
# Numeric text

A text that is read as a number is blank, a decimal numeral, or digits of base 16,
8 or 2 after `0x`, `0o` or `0b`. Blanks around it do not count. Digits of these
bases are taken in one by one, each step rounding to a double.
-/

namespace TypedDocs.NumericText

/-- The base that a mark names, after a zero at the head of a text. -/
def baseOf? (mark : Char) : Option Nat :=
  if mark = 'x' ∨ mark = 'X' then some 16
  else if mark = 'o' ∨ mark = 'O' then some 8
  else if mark = 'b' ∨ mark = 'B' then some 2
  else none

/-- The base and the digits of a text that starts with the mark of a base. -/
def based? : List Char → Option (Nat × List Char)
  | '0' :: mark :: digits => (baseOf? mark).map fun base => (base, digits)
  | _ => none

/-- Appends one digit, rounding. -/
def appendDigit? (base : Nat) (x : Binary64) (c : Char) : Option Binary64 :=
  Binary64.ofRatio? false (x.magnitude * base + digitValue c) 1

/-- The double that digits of a base stand for; there has to be at least one. -/
def ofDigits? (base : Nat) (digits : List Char) : Option Binary64 :=
  if digits.isEmpty || !digits.all (isDigitOf base) then none
  else digits.foldlM (appendDigit? base) (.zero false)

/-- The double a text without blanks around it stands for. -/
def ofTrimmed? (cs : List Char) : Option Binary64 :=
  if cs.isEmpty then some (.zero false)
  else match based? cs with
    | some (base, digits) => ofDigits? base digits
    | none => (Decimal.parse? cs).bind Decimal.toBinary64?

/-- The number a text stands for, if it is numeric and does not round to infinity. -/
def parse? (text : String) : Option Number :=
  (ofTrimmed? (trim text.toList)).map Number.ofBinary64

end TypedDocs.NumericText
