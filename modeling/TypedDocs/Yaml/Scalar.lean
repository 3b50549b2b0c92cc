import TypedDocs.Yaml.Cursor
import TypedDocs.Number.Decimal

/-!
# The texts of YAML scalars

A scalar is quoted, plain, or a block of lines. Each reader starts behind the mark
that announces its kind, gives the text the scalar stands for, and the place where
it ends. A scalar that is not closed, or is written against the rules, has no text.
-/

namespace TypedDocs.Yaml

/-- The digits of an escape by code: as many as there have to be. -/
def escapeLength? (c : Char) : Option Nat :=
  if c = 'x' then some 2 else if c = 'u' then some 4 else if c = 'U' then some 8 else none

/-- The character that a one-letter escape stands for. -/
def escaped? (c : Char) : Option Char :=
  match c with
  | '0' => some '\x00'
  | 'a' => some '\x07'
  | 'b' => some '\x08'
  | 't' => some '\t'
  | '\t' => some '\t'
  | 'n' => some '\n'
  | 'v' => some '\x0b'
  | 'f' => some '\x0c'
  | 'r' => some '\r'
  | 'e' => some '\x1b'
  | ' ' => some ' '
  | '"' => some '"'
  | '/' => some '/'
  | '\\' => some '\\'
  | 'N' => some '\u0085'
  | '_' => some '\u00a0'
  | 'L' => some '\u2028'
  | 'P' => some '\u2029'
  | _ => none

/-- The character with a code written in hexadecimal digits. -/
def charOfCode? (digits : List Char) : Option Char :=
  let n := naturalOfDigits 16 digits
  if digits.all (isDigitOf 16) && n.isValidChar then some (Char.ofNat n) else none

/-- The rest of a quoted scalar. What was read before is given in reverse. -/
def quotedFrom? (double : Bool) : Nat → List Char → Cursor → Option (List Char × Cursor)
  | 0, _, _ => none
  | fuel + 1, before, c =>
    if c.atDocumentMark then none
    else match c.rest with
      | [] => none
      | x :: rest =>
        if isSpacing x || isBreak x then do
          let (gap, c) ← Gap.take? 0 {} c
          quotedFrom? double fuel (gap.text.reverse ++ before) c
        else if double then
          if x = '"' then some (before.reverse, c.next)
          else if x = '\\' then
            match rest with
            | [] => none
            | e :: digits =>
              if isBreak e then do
                let (gap, c) ← Gap.take? 0 { broken := true } (c.skip 2)
                quotedFrom? double fuel (gap.text.reverse ++ before) c
              else match escapeLength? e with
                | some n =>
                  if digits.length < n then none
                  else do
                    let char ← charOfCode? (digits.take n)
                    quotedFrom? double fuel (char :: before) (c.skip (2 + n))
                | none => do
                  let char ← escaped? e
                  quotedFrom? double fuel (char :: before) (c.skip 2)
          else quotedFrom? double fuel (x :: before) c.next
        else if x = '\'' then
          if rest.head? = some '\'' then quotedFrom? double fuel ('\'' :: before) (c.skip 2)
          else some (before.reverse, c.next)
        else quotedFrom? double fuel (x :: before) c.next

/-- A quoted scalar from behind its first quote. -/
def quoted? (double : Bool) (c : Cursor) : Option (String × Cursor) :=
  (quotedFrom? double (c.rest.length + 1) [] c).map fun r => (String.ofList r.1, r.2)

/-- The characters that structure a flow collection. -/
def isFlowMark (c : Char) : Bool := c = ',' || c = '[' || c = ']' || c = '{' || c = '}'

/--
The rest of a plain scalar, with the gap before it. Inside flow collections it ends at their
marks, and elsewhere where a line starts left of column `indent`. The flag that comes with the
result says whether the scalar ends at the start of a line.
-/
def plainFrom? (flow : Bool) (indent : Nat) :
    Nat → Gap → Bool → List Char → Cursor → Option (List Char × Bool × Cursor)
  | 0, _, _, _, _ => none
  | fuel + 1, gap, wordStart, before, c =>
    let done := some (before.reverse, gap.broken, c)
    match c.rest with
    | [] => done
    | x :: rest =>
      if wordStart && (c.atDocumentMark || x = '#') then done
      else if isSpacing x || isBreak x then do
        let (gap, c) ← Gap.take? indent {} c
        if !flow && c.column < indent then some (before.reverse, gap.broken, c)
        else plainFrom? flow indent fuel gap true before c
      else if flow && x = ':' && rest.head?.any (fun y => isFlowMark y || y = '?') then none
      else if (x = ':' && c.endsWord 1) || (flow && isFlowMark x) then done
      else plainFrom? flow indent fuel {} false (x :: (gap.text.reverse ++ before)) c.next

/-- A plain scalar. -/
def plain? (flow : Bool) (indent : Nat) (c : Cursor) : Option (String × Bool × Cursor) :=
  (plainFrom? flow indent (2 * c.rest.length + 2) {} true [] c).map fun r =>
    (String.ofList r.1, r.2)

/-- What becomes of the line breaks at the end of a block of lines. -/
inductive Chomping where
  | strip
  | clip
  | keep
deriving DecidableEq

/-- The marks behind `|` or `>`: chomping and indentation, in either order. -/
def blockMarks? (c : Cursor) : Option (Chomping × Option Nat × Cursor) :=
  let chomping (c : Cursor) : Option Chomping × Cursor := match c.rest with
    | '+' :: _ => (some .keep, c.next)
    | '-' :: _ => (some .strip, c.next)
    | _ => (none, c)
  let digit (c : Cursor) : Option (Option Nat × Cursor) := match c.rest with
    | x :: _ =>
      if x = '0' then none
      else if isDecimalDigit x then some (some (digitValue x), c.next)
      else some (none, c)
    | [] => some (none, c)
  match chomping c with
  | (some ch, c) => do
    let (n, c) ← digit c
    some (ch, n, c)
  | (none, c) => do
    let (n, c) ← digit c
    match n with
    | none => some (.clip, none, c)
    | some n =>
      let (ch, c) := chomping c
      some (ch.getD .clip, some n, c)

/-- Skips spacing and a comment up to the end of the line. -/
def endOfLine? (c : Cursor) : Option Cursor :=
  let c := c.skipWhile isSpacing
  let c := if c.rest.head? = some '#' then c.skipWhile (!isBreak ·) else c
  match c.rest with
  | [] => some c
  | x :: _ => if isBreak x then some c.next else none

/--
The empty lines before a line of a block. Without a known indentation all spaces are skipped,
and the widest run of them is given as well.
-/
def blockBreaks? (indent : Option Nat) :
    Nat → Nat → List Char → Cursor → Option (Nat × List Char × Cursor)
  | 0, _, _, _ => none
  | fuel + 1, widest, breaks, c =>
    let room := match indent with
      | none => c.rest.length
      | some n => n - c.column
    let c := c.skip ((c.rest.take room).takeWhile (· = ' ')).length
    let widest := max widest c.column
    match c.rest with
    | [] => some (widest, breaks, c)
    | x :: _ =>
      if x = '\t' && indent.all (c.column < ·) then none
      else if isBreak x then blockBreaks? indent fuel widest (breaks ++ [x]) c.next
      else some (widest, breaks, c)

/-- The lines of a block. `leading` is the line break before a line and `breaks` the empty lines. -/
def blockLines? (literal : Bool) (indent : Nat) : Nat → List Char → List Char → List Char → Bool →
    Cursor → Option (List Char × List Char × List Char × Cursor)
  | 0, _, _, _, _, _ => none
  | fuel + 1, text, leading, breaks, wasSpaced, c =>
    if c.column = indent && !c.rest.isEmpty then
      let isSpaced := c.rest.head?.any isSpacing
      let folds := !literal && leading = ['\n'] && !wasSpaced && !isSpaced
      let joint := if folds then if breaks.isEmpty then [' '] else [] else leading
      let line := c.rest.takeWhile (!isBreak ·)
      let c := c.skip line.length
      let leading := c.rest.take 1
      do
        let (_, breaks', c) ← blockBreaks? (some indent) (c.rest.length + 1) 0 [] c.next
        blockLines? literal indent fuel (text ++ joint ++ breaks ++ line) leading breaks' isSpaced c
    else some (text, leading, breaks, c)

/-- A block of lines from behind its first mark, inside a block indented by `parent` columns. -/
def block? (literal : Bool) (parent : Option Nat) (c : Cursor) : Option (String × Cursor) := do
  let (chomping, extra, c) ← blockMarks? c
  let c ← endOfLine? c
  let given := extra.map fun n => parent.getD 0 + n
  let (widest, breaks, c) ← blockBreaks? given (c.rest.length + 1) 0 [] c
  let least := match parent with
    | none => 1
    | some n => n + 1
  let indent := given.getD (max widest least)
  let (text, leading, breaks, c) ←
    blockLines? literal indent (c.rest.length + 1) [] [] breaks false c
  let leading := if chomping = .strip then [] else leading
  let breaks := if chomping = .keep then breaks else []
  some (String.ofList (text ++ leading ++ breaks), c)

end TypedDocs.Yaml
