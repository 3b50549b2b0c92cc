import TypedDocs.Scalar.Basic
import TypedDocs.Scalar.NumericText
import TypedDocs.Calendar.Instant
import TypedDocs.Pattern.Reader
import TypedDocs.Operator

/-!
# The built-in scalar types

Strings, numbers and booleans are values of their own. Object identifiers, dates
and regular expressions have no form of their own in JSON and are written as an
object with one field: `$oid`, `$date` or `$regularExpression`.
-/

namespace TypedDocs

namespace ScalarType

/-- Twenty-four hexadecimal digits of either case. -/
def isObjectIdHex (s : String) : Bool :=
  s.toList.length = 24 && s.toList.all (isDigitOf 16)

/-- The digits inside an object identifier. -/
def objectIdHex? (v : Value) : Option String :=
  match v.onlyField? "$oid" with
  | some (.string s) => if isObjectIdHex s then some s else none
  | _ => none

def mismatch (v : Value) (name : String) : Except CastError Value := .error (.ofType v name)

/-- Strings; numbers, booleans and object identifiers have a text. -/
def string : ScalarType where
  name := "String"
  satisfies := Value.isString
  convert v := match v with
    | .string s => .ok (.string s)
    | .number n => .ok (.string n.plainText)
    | .bool b => .ok (.string (if b then "true" else "false"))
    | v => match objectIdHex? v with
      | some hex => .ok (.string hex)
      | none => mismatch v "String"

/-- The double a number stands for. -/
def doubleOf? : Number → Option Binary64
  | .integer n _ => Binary64.ofInt? n
  | .double x => some x

/-- Numbers; numeric texts and booleans stand for one. -/
def number : ScalarType where
  name := "Number"
  satisfies := Value.isNumber
  convert v :=
    let parsed := match v with
      | .string s => NumericText.parse? s
      | .bool b => Number.ofInt? (if b then 1 else 0)
      | .number n => (doubleOf? n).map Number.ofBinary64
      | _ => none
    match parsed with
    | some n => .ok (.number n)
    | none => mismatch v "Number"

/-- Booleans; anything but zero, the empty text and `null` counts as true. -/
def boolean : ScalarType where
  name := "Boolean"
  satisfies := Value.isBool
  convert v := match v with
    | .null => .ok (.bool false)
    | .bool b => .ok (.bool b)
    | .number n => .ok (.bool n.isNonzero)
    | .string s => .ok (.bool (!s.isEmpty))
    | .array _ | .object _ => .ok (.bool true)

/-- An object identifier with the given digits, in lower case. -/
def objectIdOf (hex : String) : Value :=
  .object [("$oid", .string (String.ofList (hex.toList.map Char.toLower)))]

/-- Object identifiers; a text of their digits stands for one. -/
def objectId : ScalarType where
  name := "ObjectId"
  satisfies v := (objectIdHex? v).isSome
  convert v := match v with
    | .string s => if isObjectIdHex s then .ok (objectIdOf s) else mismatch v "ObjectId"
    | v => mismatch v "ObjectId"

/-- The instant a value stands for: a date text, or signed 64-bit milliseconds. -/
def instantOf? : Value → Option Instant
  | .string s => Instant.parse? s
  | .number (.integer n _) => if n < 9223372036854775808 then Instant.ofMillis? n else none
  | _ => none

def date : ScalarType where
  name := "Date"
  satisfies v := (v.onlyField? "$date").isSome
  convert v := match instantOf? v with
    | some i => .ok (.object [("$date", .string i.text)])
    | none => mismatch v "Date"

/-- The text a value gives as a pattern. -/
def patternText? : Value → Option String
  | .string s => some s
  | .number n => some n.plainText
  | .bool b => some (if b then "true" else "false")
  | _ => none

/-- Regular expressions without options; a text that is a pattern stands for one. -/
def regexp : ScalarType where
  name := "RegExp"
  satisfies v := match v.onlyField? "$regularExpression" with
    | some inner => inner.isObject
    | none => false
  convert v := match patternText? v with
    | some text =>
      if Pattern.isPattern text then
        .ok (.object [("$regularExpression",
          .object [("pattern", .string text), ("options", .string "")])])
      else mismatch v "RegExp"
    | none => mismatch v "RegExp"

/-- All built-in scalar types. -/
def builtins : List ScalarType := [string, number, boolean, objectId, date, regexp]

/-- The built-in scalar type of that name. -/
def builtin? (name : String) : Option ScalarType := builtins.find? (·.name = name)

end ScalarType

/-- The type an operand of an element operator has, whatever the field is. -/
def ElementSelector.operandType : ElementSelector → ScalarType
  | .existence => .boolean
  | .type | .size => .number
  | .regex => .regexp

end TypedDocs
