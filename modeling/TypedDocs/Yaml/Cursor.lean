/-!
# Places in a YAML text

A cursor is a place in a text: what follows it, and how many lines, columns and
characters lie before it. Line ends are made uniform before a text is read, so a
line break is always one character. The gap between two words of a scalar keeps its
blanks if it lies within a line; a single line break in it reads as a space, and of
several the first one is dropped.
-/

namespace TypedDocs.Yaml

def isBreak (c : Char) : Bool := c = '\n' || c = '\u2028' || c = '\u2029'

/-- A space or a tab. -/
def isSpacing (c : Char) : Bool := c = ' ' || c = '\t'

/-- A character that may stand in a YAML text at all. -/
def isAllowed (c : Char) : Bool :=
  let n := c.toNat
  n = 0x09 || n = 0x0A || n = 0x0D || (0x20 ≤ n && n ≤ 0x7E) || n = 0x85 ||
    (0xA0 ≤ n && n ≤ 0xFFFD) || 0x10000 ≤ n

/-- Writes every carriage return, with or without a line feed, and every next line as a line feed. -/
def uniformBreaks : List Char → List Char
  | '\r' :: '\n' :: rest => '\n' :: uniformBreaks rest
  | c :: rest => (if c = '\r' ∨ c = '\u0085' then '\n' else c) :: uniformBreaks rest
  | [] => []

structure Cursor where
  rest : List Char
  line : Nat := 0
  column : Nat := 0
  index : Nat := 0

namespace Cursor

/-- The place behind the next character, which is given with what follows it. -/
def past (c : Cursor) (next : Char) (rest : List Char) : Cursor :=
  if isBreak next then ⟨rest, c.line + 1, 0, c.index + 1⟩
  else ⟨rest, c.line, c.column + 1, c.index + 1⟩

/-- The place behind the next character. -/
def next (c : Cursor) : Cursor :=
  match c.rest with
  | [] => c
  | x :: rest => c.past x rest

/-- The place `n` characters on. -/
def skip (c : Cursor) : Nat → Cursor
  | 0 => c
  | n + 1 => c.next.skip n

/-- The place behind all characters at hand that have a property. -/
def skipWhile (p : Char → Bool) (c : Cursor) : Cursor :=
  c.skip (c.rest.takeWhile p).length

/-- Whether the `n`-th character from here is spacing, a line break, or missing. -/
def endsWord (c : Cursor) (n : Nat) : Bool :=
  match c.rest[n]? with
  | none => true
  | some x => isSpacing x || isBreak x

/-- Whether the line starts here with three of these characters as a word of their own. -/
def atMark (c : Cursor) (mark : Char) : Bool :=
  c.column = 0 && [mark, mark, mark].isPrefixOf c.rest && c.endsWord 3

/-- Whether a document starts or ends here. -/
def atDocumentMark (c : Cursor) : Bool := c.atMark '-' || c.atMark '.'

end Cursor

/-- What lies between two words of a scalar. -/
structure Gap where
  broken : Bool := false
  spacing : List Char := []
  first : List Char := []
  more : List Char := []

namespace Gap

/-- What a gap reads as. -/
def text (g : Gap) : List Char :=
  if g.broken then
    if g.first = ['\n'] then if g.more.isEmpty then [' '] else g.more
    else g.first ++ g.more
  else g.spacing

/-- A gap with one more character. -/
def push (g : Gap) (c : Char) : Gap :=
  if isBreak c then
    if g.broken then { g with more := g.more ++ [c] } else ⟨true, [], [c], []⟩
  else if g.broken then g
  else { g with spacing := g.spacing ++ [c] }

/-- Takes in the spacing and line breaks at the head of the text that follows a place. -/
def takeFrom? (indent : Nat) : List Char → Gap → Cursor → Option (Gap × Cursor)
  | [], g, c => some (g, c)
  | x :: rest, g, c =>
    if isSpacing x || isBreak x then
      if g.broken && x = '\t' && c.column < indent then none
      else takeFrom? indent rest (g.push x) (c.past x rest)
    else some (g, c)

/-- Takes in all spacing and line breaks. A tab left of column `indent` on a new line is refused. -/
def take? (indent : Nat) (g : Gap) (c : Cursor) : Option (Gap × Cursor) :=
  takeFrom? indent c.rest g c

end Gap

end TypedDocs.Yaml
