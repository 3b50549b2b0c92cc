/-!
# Names of files

The name of a file is a sequence of bytes, and not every one is text. In a written name each
character stands for its bytes, and a byte that belongs to no character is written as the
character of its number with a mark before it. The mark is the null character, which no file has
in its name, so a name without it is text and stands for itself. Paths and the arguments of a
program are written in the same way.
-/

namespace TypedDocs.Files

/-- The text that a name is, if all its bytes belong to characters. -/
def text? (name : String) : Option String :=
  if name.toList.contains '\x00' then none else some name

/-- The bytes of a written name. -/
def bytesOf : List Char → List UInt8
  | [] => []
  | '\x00' :: stray :: rest => UInt8.ofNat stray.toNat :: bytesOf rest
  | c :: rest => String.utf8EncodeChar c ++ bytesOf rest

/-- Puts a name among others whose bytes ascend. -/
def insertName (name : String) : List String → List String
  | [] => [name]
  | other :: rest =>
    if bytesOf name.toList ≤ bytesOf other.toList then name :: other :: rest
    else other :: insertName name rest

/-- Names in the ascending order of their bytes. -/
def inOrder (names : List String) : List String := names.foldr insertName []

/-- Bytes with which a character begins and does not end. -/
def beginCharacter : List UInt8 → Bool
  | [a] => 0xC2 ≤ a && a ≤ 0xF4
  | [a, b] =>
    if a = 0xE0 then 0xA0 ≤ b && b ≤ 0xBF
    else if a = 0xED then 0x80 ≤ b && b ≤ 0x9F
    else if a = 0xF0 then 0x90 ≤ b && b ≤ 0xBF
    else if a = 0xF4 then 0x80 ≤ b && b ≤ 0x8F
    else 0xE1 ≤ a && a ≤ 0xF3 && 0x80 ≤ b && b ≤ 0xBF
  | [a, b, c] => 0xF0 ≤ a && beginCharacter [a, b] && 0x80 ≤ c && c ≤ 0xBF
  | _ => false

/-- What is shown for bytes that belong to no character. -/
def replacement (bytes : List UInt8) : List Char := if bytes.isEmpty then [] else ['\uFFFD']

/-- A written name as it is shown, after the bytes of a character that may still break off. One
replacement is shown for all of them. -/
def shownAfter (begun : List UInt8) : List Char → List Char
  | [] => replacement begun
  | '\x00' :: stray :: rest =>
    let byte := UInt8.ofNat stray.toNat
    if beginCharacter (begun ++ [byte]) then shownAfter (begun ++ [byte]) rest
    else if beginCharacter [byte] then replacement begun ++ shownAfter [byte] rest
    else replacement begun ++ replacement [byte] ++ shownAfter [] rest
  | c :: rest => replacement begun ++ c :: shownAfter [] rest

/-- A name as it is shown, with replacements for the bytes that belong to no character. -/
def shown (name : String) : String := String.ofList (shownAfter [] name.toList)

end TypedDocs.Files
