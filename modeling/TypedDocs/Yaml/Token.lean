import TypedDocs.Yaml.Scalar

/-!
# YAML tokens

A token is a mark, a property or a scalar. Block collections are written by
indentation alone, so reading keeps the open indentations and puts in the tokens
that start and end blocks. That something is a key is only known once its colon is
found; until then the place where it started is remembered as a possible key, and
the token that announces the key is put in there afterwards. A possible key is given
up at the end of its line or after 1024 characters; where only a key can stand, that
is an error.
-/

namespace TypedDocs.Yaml

inductive Token where
  | version (major minor : Nat)
  | handle (name expansion : String)
  | documentStart
  | documentEnd
  | blockSequenceStart
  | blockMappingStart
  | blockEnd
  | flowSequenceStart
  | flowSequenceEnd
  | flowMappingStart
  | flowMappingEnd
  | blockEntry
  | flowEntry
  | key
  | value
  | alias (name : String)
  | anchor (name : String)
  | tag (handle suffix : String)
  | scalar (plain : Bool) (text : String)
deriving DecidableEq

/-- A place where a key may have started. -/
structure PossibleKey where
  /-- Nothing but a key can start there. -/
  required : Bool
  /-- How many tokens come before it. -/
  position : Nat
  start : Cursor

/-- The state of reading tokens. -/
structure Lexer where
  cursor : Cursor
  tokens : Array Token := #[]
  /-- Columns of the open blocks, the innermost first. -/
  blocks : List Nat := []
  /-- The possible key of the outermost level, and of each open flow collection before it. -/
  keys : List (Option PossibleKey) := [none]
  /-- Whether a key may start here. -/
  keyAllowed : Bool := true

namespace Lexer

def inFlow (l : Lexer) : Bool := 1 < l.keys.length

def push (l : Lexer) (t : Token) : Lexer := { l with tokens := l.tokens.push t }

def moveTo (l : Lexer) (c : Cursor) : Lexer := { l with cursor := c }

def allowKey (l : Lexer) (b : Bool) : Lexer := { l with keyAllowed := b }

def setKey (l : Lexer) (k : Option PossibleKey) : Lexer :=
  { l with keys := k :: l.keys.drop 1 }

def key? (l : Lexer) : Option PossibleKey := l.keys.head?.join

/-- Gives up the possible key of the current level. -/
def dropKey? (l : Lexer) : Option Lexer :=
  if l.key?.any (·.required) then none else some (l.setKey none)

/-- Remembers this place as that of a possible key. -/
def markKey? (l : Lexer) : Option Lexer :=
  if l.keyAllowed then do
    let l ← l.dropKey?
    let required := !l.inFlow && l.blocks.head? = some l.cursor.column
    some (l.setKey (some ⟨required, l.tokens.size, l.cursor⟩))
  else some l

def isStale (c : Cursor) (k : PossibleKey) : Bool :=
  k.start.line < c.line || k.start.index + 1024 < c.index

/-- Gives up all possible keys that cannot be keys any more. -/
def dropStale? (l : Lexer) : Option Lexer :=
  if l.keys.any (fun k => k.any fun k => k.required && isStale l.cursor k) then none
  else some { l with keys := l.keys.map fun k => k.filter fun k => !isStale l.cursor k }

/-- Opens a block at a column right of all open ones; its token goes to `position`. -/
def openBlock (l : Lexer) (column position : Nat) (t : Token) : Lexer :=
  if !l.inFlow && l.blocks.all (· < column) then
    { l with blocks := column :: l.blocks, tokens := l.tokens.insertIdxIfInBounds position t }
  else l

/-- Closes the blocks that are right of a column. -/
def closeBlocks (l : Lexer) (column : Nat) : Lexer :=
  if l.inFlow then l
  else
    let closed := l.blocks.takeWhile (column < ·)
    { l with
      blocks := l.blocks.drop closed.length
      tokens := l.tokens ++ Array.replicate closed.length .blockEnd }

/-- Closes all blocks. -/
def closeAll (l : Lexer) : Lexer :=
  if l.inFlow then l
  else { l with blocks := [], tokens := l.tokens ++ Array.replicate l.blocks.length .blockEnd }

/-- Skips spaces, comments and line ends; tabs only where no key may start. -/
def skipToToken : Nat → Lexer → Lexer
  | 0, l => l
  | fuel + 1, l =>
    let skips (x : Char) : Bool := x = ' ' || ((l.inFlow || !l.keyAllowed) && x = '\t')
    let c := l.cursor.skipWhile skips
    let c := if c.rest.head? = some '#' then c.skipWhile (!isBreak ·) else c
    match c.rest with
    | x :: _ =>
      if isBreak x then skipToToken fuel ((l.moveTo c.next).allowKey (!l.inFlow || l.keyAllowed))
      else l.moveTo c
    | [] => l.moveTo c

/-- A letter, a digit, `-` or `_`. -/
def isNameChar (c : Char) : Bool := c.isAlphanum || c = '-' || c = '_'

/-- A character of a tag; the marks of flow collections only in some places. -/
def isTagChar (flowMarks : Bool) (c : Char) : Bool :=
  isNameChar c || (";/?:@&=+$.%!~*'()".toList.contains c) ||
    (flowMarks && (c = ',' || c = '[' || c = ']'))

/-- Every percent sign has two hexadecimal digits behind it. -/
def hasWholeEscapes : List Char → Bool
  | [] => true
  | '%' :: a :: b :: rest => isDigitOf 16 a && isDigitOf 16 b && hasWholeEscapes rest
  | '%' :: _ => false
  | _ :: rest => hasWholeEscapes rest

/-- The characters of a tag from here, and the place behind them. -/
def tagText? (flowMarks : Bool) (c : Cursor) : Option (List Char × Cursor) :=
  let text := c.rest.takeWhile (isTagChar flowMarks)
  if hasWholeEscapes text then some (text, c.skip text.length) else none

/-- An exclamation mark with the name behind it and a second mark, if there is one. -/
def tagHandle? (c : Cursor) : Option (List Char × Cursor) :=
  match c.rest with
  | '!' :: rest =>
    let name := rest.takeWhile isNameChar
    let closing := if (rest.drop name.length).head? = some '!' then ['!'] else []
    let text := '!' :: name ++ closing
    some (text, c.skip text.length)
  | _ => none

/-- A tag in one of its forms: verbatim, with a handle, local, or the bare mark. -/
def tag? (flow : Bool) (c : Cursor) : Option (Token × Cursor) := do
  let (t, c) ← match c.rest with
    | '!' :: '<' :: _ => do
      let (text, c) ← tagText? true (c.skip 2)
      if text.isEmpty ∨ c.rest.head? ≠ some '>' then none
      else some (Token.tag "" (String.ofList text), c.next)
    | _ => do
      let (name, c') ← tagHandle? c
      if 1 < name.length ∧ name.getLast? = some '!' then
        let (suffix, c') ← tagText? false c'
        if suffix.isEmpty then none
        else some (Token.tag (String.ofList name) (String.ofList suffix), c')
      else do
        let (suffix, c') ← tagText? false c.next
        if suffix.isEmpty then some (Token.tag "" "!", c')
        else some (Token.tag "!" (String.ofList suffix), c')
  if c.endsWord 0 ∨ (flow ∧ c.rest.head? = some ',') then some (t, c) else none

/-- The name behind `&` or `*`. -/
def anchorName? (c : Cursor) : Option (String × Cursor) :=
  let name := c.rest.takeWhile isNameChar
  let c := c.skip name.length
  if name.isEmpty then none
  else if c.endsWord 0 || c.rest.head?.any ("?:,]\x7d%@`".toList.contains ·) then
    some (String.ofList name, c)
  else none

/-- A directive from behind its percent sign, up to the next line. -/
def directive? (c : Cursor) : Option (Token × Cursor) := do
  let name := c.rest.takeWhile isNameChar
  let c := c.skip name.length
  if !c.endsWord 0 then none
  else
    let c := c.skipWhile isSpacing
    let (t, c) ← if String.ofList name = "YAML" then do
        let (major, rest) := spanDigits c.rest
        let (minor, _) := spanDigits (rest.drop 1)
        if rest.head? ≠ some '.' ∨ major.isEmpty ∨ minor.isEmpty ∨ 9 < major.length
            ∨ 9 < minor.length then none
        else some (Token.version (naturalOfDigits 10 major) (naturalOfDigits 10 minor),
          c.skip (major.length + 1 + minor.length))
      else if String.ofList name = "TAG" then do
        let (handle, c) ← tagHandle? c
        if 1 < handle.length ∧ handle.getLast? ≠ some '!' then none
        else if !c.rest.head?.any isSpacing then none
        else do
          let (text, c) ← tagText? true (c.skipWhile isSpacing)
          if text.isEmpty || !c.endsWord 0 then none
          else some (Token.handle (String.ofList handle) (String.ofList text), c)
      else none
    let c ← endOfLine? c
    some (t, c)

/-- A mark that stands between documents. -/
def documentMark? (l : Lexer) (t : Token) : Option Lexer := do
  let l ← l.closeAll.dropKey?
  some (((l.allowKey false).push t).moveTo (l.cursor.skip 3))

/-- The mark that opens a flow collection. -/
def flowStart? (l : Lexer) (t : Token) : Option Lexer := do
  let l ← l.markKey?
  let l := { l with keys := none :: l.keys }
  some (((l.allowKey true).push t).moveTo l.cursor.next)

/-- The mark that closes a flow collection. -/
def flowEnd? (l : Lexer) (t : Token) : Option Lexer := do
  let l ← l.dropKey?
  let l := if l.inFlow then { l with keys := l.keys.drop 1 } else l
  some (((l.allowKey false).push t).moveTo l.cursor.next)

/-- A comma. -/
def flowEntry? (l : Lexer) : Option Lexer := do
  let l ← l.dropKey?
  some (((l.allowKey true).push .flowEntry).moveTo l.cursor.next)

/-- A dash before an item. -/
def blockEntry? (l : Lexer) : Option Lexer := do
  if !l.inFlow && !l.keyAllowed then none
  else
    let l := l.openBlock l.cursor.column l.tokens.size .blockSequenceStart
    let l ← l.dropKey?
    some (((l.allowKey true).push .blockEntry).moveTo l.cursor.next)

/-- A question mark before a key. -/
def explicitKey? (l : Lexer) : Option Lexer := do
  if !l.inFlow && !l.keyAllowed then none
  else
    let l := l.openBlock l.cursor.column l.tokens.size .blockMappingStart
    let l ← l.dropKey?
    some (((l.allowKey !l.inFlow).push .key).moveTo l.cursor.next)

/-- A colon behind a key. -/
def value? (l : Lexer) : Option Lexer :=
  match l.key? with
  | some k =>
    let l := { l with tokens := l.tokens.insertIdxIfInBounds k.position .key }
    let l := l.openBlock k.start.column k.position .blockMappingStart
    some ((((l.setKey none).allowKey false).push .value).moveTo l.cursor.next)
  | none =>
    if !l.inFlow && !l.keyAllowed then none
    else
      let l := l.openBlock l.cursor.column l.tokens.size .blockMappingStart
      some (((l.allowKey !l.inFlow).push .value).moveTo l.cursor.next)

/-- A token that may be, or start, a key. -/
def keyable? (l : Lexer) (read : Cursor → Option (Token × Bool × Cursor)) : Option Lexer := do
  let l ← l.markKey?
  let (t, allowed, c) ← read l.cursor
  some (((l.allowKey allowed).push t).moveTo c)

/-- A block of lines. -/
def block? (l : Lexer) (literal : Bool) : Option Lexer := do
  let l ← l.dropKey?
  let (text, c) ← Yaml.block? literal l.blocks.head? l.cursor.next
  some (((l.allowKey true).push (.scalar false text)).moveTo c)

/-- The characters that no plain scalar starts with. -/
def marks : List Char := "-?:,[]\x7b\x7d#&*!|>'\"%@`".toList

/-- Whether a plain scalar starts at a cursor. -/
def startsPlain (flow : Bool) (c : Cursor) (x : Char) : Bool :=
  !(isSpacing x || isBreak x || marks.contains x)
    || (x = '-' && !(c.rest[1]?).any isSpacing)
    || (!flow && (x = '?' || x = ':') && !c.endsWord 1)

/-- The next token that begins with the character `x`. -/
def token? (l : Lexer) (x : Char) : Option Lexer :=
  let c := l.cursor
  if c.column = 0 && x = '%' then do
    let l ← l.closeAll.dropKey?
    let (t, c) ← directive? c.next
    some (((l.allowKey false).push t).moveTo c)
  else if c.atMark '-' then l.documentMark? .documentStart
  else if c.atMark '.' then l.documentMark? .documentEnd
  else if x = '[' then l.flowStart? .flowSequenceStart
  else if x = '{' then l.flowStart? .flowMappingStart
  else if x = ']' then l.flowEnd? .flowSequenceEnd
  else if x = '}' then l.flowEnd? .flowMappingEnd
  else if x = ',' then l.flowEntry?
  else if x = '-' && c.endsWord 1 then l.blockEntry?
  else if x = '?' && (l.inFlow || c.endsWord 1) then l.explicitKey?
  else if x = ':' && (l.inFlow || c.endsWord 1) then l.value?
  else if x = '*' then
    l.keyable? fun c => (anchorName? c.next).map fun r => (.alias r.1, false, r.2)
  else if x = '&' then
    l.keyable? fun c => (anchorName? c.next).map fun r => (.anchor r.1, false, r.2)
  else if x = '!' then l.keyable? fun c => (tag? l.inFlow c).map fun r => (r.1, false, r.2)
  else if x = '|' && !l.inFlow then l.block? true
  else if x = '>' && !l.inFlow then l.block? false
  else if x = '\'' then
    l.keyable? fun c => (quoted? false c.next).map fun r => (.scalar false r.1, false, r.2)
  else if x = '"' then
    l.keyable? fun c => (quoted? true c.next).map fun r => (.scalar false r.1, false, r.2)
  else if startsPlain l.inFlow c x then
    let indent := (l.blocks.head?.map (· + 1)).getD 0
    l.keyable? fun c => (plain? l.inFlow indent c).map fun r => (.scalar true r.1, r.2.1, r.2.2)
  else none

/-- Reads tokens to the end of the text. -/
def finish? : Nat → Lexer → Option Lexer
  | 0, _ => none
  | fuel + 1, l => do
    let l := l.skipToToken (l.cursor.rest.length + 1)
    let l ← l.dropStale?
    match l.cursor.rest with
    | [] => l.closeAll.dropKey?
    | x :: _ =>
      let l ← (l.closeBlocks l.cursor.column).token? x
      finish? fuel l

end Lexer

/-- The text as characters with uniform line breaks, without the mark of its byte order. -/
def preparedText? (text : String) : Option (List Char) :=
  let cs := text.toList
  if cs.all isAllowed then
    let cs := if cs.head? = some '\uFEFF' then cs.drop 1 else cs
    some (uniformBreaks cs)
  else none

/-- The tokens of a YAML text. -/
def tokens? (text : String) : Option (List Token) := do
  let cs ← preparedText? text
  let l ← Lexer.finish? (cs.length + 1) { cursor := ⟨cs, 0, 0, 0⟩ }
  some l.tokens.toList

end TypedDocs.Yaml
