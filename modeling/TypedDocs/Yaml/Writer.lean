import TypedDocs.Yaml.Core

/-!
# Writing YAML scalars

A text is written plainly unless it would then be read as something else: as null, a
boolean or a number, as one of the old words for a boolean, or as a mark of the
format. It then stands between single quotes, or between double quotes if it has
characters that only an escape can show. A text of several lines is written as a
block of lines where that keeps all its blanks.
-/

namespace TypedDocs.Yaml

/-- The words that some readers take for booleans. -/
def oldBooleans : List String :=
  ["y", "Y", "yes", "Yes", "YES", "n", "N", "no", "No", "NO", "true", "True", "TRUE",
   "false", "False", "FALSE", "on", "On", "ON", "off", "Off", "OFF"]

/-- Whether a plain scalar of this text would not be a string. -/
def readsAsOther (text : String) : Bool :=
  let cs := text.toList
  text.isEmpty || isNullText text || oldBooleans.contains text || isPaddedDigits cs ||
    ((integer? cs).filter isReadable).isSome || (double? cs).isSome

/-- A character that ends a line for a writer; readers see them all as line breaks. -/
def endsLine (c : Char) : Bool := isBreak c || c = '\r' || c = '\u0085'

/-- A character that is written as itself. -/
def isShown (c : Char) : Bool :=
  let n := c.toNat
  n = 0x0A || (0x20 ≤ n && n ≤ 0x7E) || (0xA0 ≤ n && n ≤ 0xFFFD && n ≠ 0xFEFF)

/-- The characters that no plain scalar of several characters may start with. -/
def leadingMarks : List Char := "#,[]\x7b\x7d&*!|>'\"%@`".toList

def endsWord (c : Option Char) : Bool := c.all fun c => isSpacing c || endsLine c || c = '\x00'

/-- Whether a mark that structures blocks stands in a text behind the character `before`. -/
def hasInnerMark : Char → List Char → Bool
  | _, [] => false
  | before, c :: rest =>
    (c = ':' && endsWord rest.head?) || (c = '#' && endsWord (some before)) || hasInnerMark c rest

/-- Whether a text has a mark that structures blocks. -/
def hasBlockMark (cs : List Char) : Bool :=
  ['-', '-', '-'].isPrefixOf cs || ['.', '.', '.'].isPrefixOf cs ||
    match cs with
    | [] => false
    | c :: rest =>
      leadingMarks.contains c || ((c = '?' || c = ':' || c = '-') && endsWord rest.head?) ||
        hasInnerMark c rest

/-- Whether two neighbours in a text have the given properties. -/
def hasNeighbours (p q : Char → Bool) : List Char → Bool
  | a :: b :: rest => (p a && q b) || hasNeighbours p q (b :: rest)
  | _ => false

def isSpace (c : Char) : Bool := c = ' '

/-- A text that a plain scalar can hold. -/
def fitsPlain (cs : List Char) : Bool :=
  !cs.any endsLine && cs.all isShown && !hasBlockMark cs && !cs.head?.any isSpace &&
    !cs.getLast?.any isSpace

/-- A text that single quotes can hold. -/
def fitsSingle (cs : List Char) : Bool :=
  cs.all isShown && !hasNeighbours isSpace endsLine cs && !hasNeighbours endsLine isSpace cs

/-- A text that a block of lines can hold. -/
def fitsBlock (cs : List Char) : Bool :=
  cs.all isShown && !hasNeighbours isSpace endsLine cs && !cs.getLast?.any isSpace

/-- Writes each line behind `indent` spaces; `fresh` says whether a line starts here. -/
def indentLines (indent : Nat) : Bool → List Char → List Char
  | _, [] => []
  | fresh, c :: rest =>
    if endsLine c then c :: indentLines indent true rest
    else (if fresh then List.replicate indent ' ' else []) ++ c :: indentLines indent false rest

/-- A text between single quotes. -/
def singleQuoted (indent : Nat) (cs : List Char) : String :=
  let doubled := cs.flatMap fun c => if c = '\'' then ['\'', '\''] else [c]
  let tail := if cs.getLast?.any endsLine then List.replicate indent ' ' else []
  String.ofList (['\''] ++ indentLines indent false doubled ++ tail ++ ['\''])

/-- A code in upper-case hexadecimal digits. -/
def hexCode (width n : Nat) : List Char :=
  let digits := (Nat.toDigits 16 n).map Char.toUpper
  List.replicate (width - digits.length) '0' ++ digits

/-- A character between double quotes. -/
def doubleQuotedChar (c : Char) : List Char :=
  let n := c.toNat
  if c = '"' ∨ c = '\\' then ['\\', c]
  else if isShown c ∧ ¬ endsLine c then [c]
  else if n = 0x00 then ['\\', '0']
  else if n = 0x07 then ['\\', 'a']
  else if n = 0x08 then ['\\', 'b']
  else if n = 0x09 then ['\\', 't']
  else if n = 0x0A then ['\\', 'n']
  else if n = 0x0B then ['\\', 'v']
  else if n = 0x0C then ['\\', 'f']
  else if n = 0x0D then ['\\', 'r']
  else if n = 0x1B then ['\\', 'e']
  else if n = 0x85 then ['\\', 'N']
  else if n = 0x2028 then ['\\', 'L']
  else if n = 0x2029 then ['\\', 'P']
  else if n ≤ 0xFF then ['\\', 'x'] ++ hexCode 2 n
  else if n ≤ 0xFFFF then ['\\', 'u'] ++ hexCode 4 n
  else ['\\', 'U'] ++ hexCode 8 n

/-- A text between double quotes. -/
def doubleQuoted (cs : List Char) : String :=
  String.ofList (['"'] ++ cs.flatMap doubleQuotedChar ++ ['"'])

/-- The marks of a block of lines: its indentation if it starts with a blank, and its end. -/
def blockMarks (cs : List Char) : List Char :=
  let hint := if cs.head?.any (fun c => isSpace c || endsLine c) then ['2'] else []
  let chomping := match cs.reverse with
    | [] => ['-']
    | [c] => if endsLine c then ['+'] else ['-']
    | c :: b :: _ => if !endsLine c then ['-'] else if endsLine b then ['+'] else []
  hint ++ chomping

/-- A text as a block of lines, up to the end of its last line. -/
def blockOfLines (indent : Nat) (cs : List Char) : String :=
  let tail := if cs.getLast?.any endsLine then [] else ['\n']
  String.ofList (['|'] ++ blockMarks cs ++ ['\n'] ++ indentLines indent true cs ++ tail)

/-- A text as a scalar with its line end; lines after the first stand behind `indent` spaces. -/
def scalarLine (indent : Nat) (text : String) : String :=
  let cs := text.toList
  let quoted := if fitsSingle cs then singleQuoted indent cs else doubleQuoted cs
  if cs.contains '\n' then
    if fitsBlock cs then blockOfLines indent cs else doubleQuoted cs ++ "\n"
  else if readsAsOther text then quoted ++ "\n"
  else if fitsPlain cs then text ++ "\n"
  else quoted ++ "\n"

end TypedDocs.Yaml
