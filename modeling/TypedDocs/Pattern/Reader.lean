import TypedDocs.Pattern.Basic
import TypedDocs.Pattern.CharClass
import TypedDocs.Text.Alphanumeric

/-!
# Reading patterns

The grammar of patterns: branches, quantifiers, groups of all kinds, references,
escapes, bracketed classes, comments and, with the `x` flag, blanks that do not
count. A reference must name a group that was opened before it. `isPattern`
decides whether a text is a pattern that can be used.
-/

namespace TypedDocs.Pattern

/-- What is left of the text, and what has been learnt from the part already read. -/
structure ReaderState where
  rest : List Char
  /-- Blanks and line comments do not count. -/
  extended : Bool
  /-- Group names, the latest first. -/
  names : List (String × Nat)
  /-- A group was referred to by a bare number. -/
  numbered : Bool
  referred : List Nat
  /-- Groups opened so far. -/
  groups : Nat
  /-- The length of the whole text in bytes. -/
  size : Nat

abbrev Reader := StateT ReaderState Option

def fail {α : Type} : Reader α := fun _ => none

def setRest (cs : List Char) : Reader Unit := modify fun s => { s with rest := cs }

def getRest : Reader (List Char) := return (← get).rest

mutual
/-- Drops comments in groups and, if `extended`, blanks and line comments. -/
def skipIgnored (extended : Bool) : List Char → Option (List Char)
  | [] => some []
  | '(' :: '?' :: '#' :: rest => skipComment extended rest
  | c :: rest =>
    if extended && (c = ' ' || c = '\r' || c = '\n' || c = '\t') then skipIgnored extended rest
    else if extended && c = '#' then skipLine extended rest
    else some (c :: rest)
/-- Drops a comment up to its parenthesis, which has to be there. -/
def skipComment (extended : Bool) : List Char → Option (List Char)
  | [] => none
  | ')' :: rest => skipIgnored extended rest
  | '\\' :: _ :: rest => skipComment extended rest
  | _ :: rest => skipComment extended rest
/-- Drops a comment up to the end of its line. -/
def skipLine (extended : Bool) : List Char → Option (List Char)
  | [] => some []
  | '\n' :: rest => skipIgnored extended rest
  | _ :: rest => skipLine extended rest
end

/-- Drops what does not count here. -/
def skip : Reader Unit := fun s =>
  (skipIgnored s.extended s.rest).map fun cs => ((), { s with rest := cs })

/-- The numbers of a machine word lie below this one. -/
def wordLimit : Nat := 18446744073709551616

/-- A decimal number that fits a machine word, and what follows it. -/
def number? (cs : List Char) : Option (Nat × List Char) :=
  let (digits, rest) := spanDigits cs
  let n := naturalOfDigits 10 digits
  if digits.isEmpty || wordLimit ≤ n then none else some (n, rest)

/-- The bounds of a counted repetition, from just after its opening brace. -/
def bounds? (extended : Bool) (cs : List Char) : Option ((Nat × Option Nat) × List Char) := do
  let cs ← skipIgnored extended cs
  let (low, cs) ← match cs with
    | ',' :: _ => some (0, cs)
    | _ => number? cs
  let cs ← skipIgnored extended cs
  let (high, cs) ← match cs with
    | '}' :: _ => some (some low, cs)
    | ',' :: cs => do
      let cs ← skipIgnored extended cs
      match number? cs with
      | some (n, cs) => some (if n + 1 = wordLimit then none else some n, cs)
      | none => some (none, cs)
    | _ => none
  let cs ← skipIgnored extended cs
  match cs with
  | '}' :: cs => some ((low, high), cs)
  | _ => none

/-- Characters of group names: letters and digits of any script, and the low line. -/
def isNameChar (c : Char) : Bool := isAlphanumeric c || c = '_'

/-- A group name between two marks, and what follows the second one. -/
def name? (opening closing : List Char) (cs : List Char) : Option (String × List Char) :=
  if opening.isPrefixOf cs then
    let cs := cs.drop opening.length
    let name := cs.takeWhile isNameChar
    let cs := cs.drop name.length
    if !name.isEmpty && closing.isPrefixOf cs then
      some (String.ofList name, cs.drop closing.length)
    else none
  else none

/-- A distance to another group, as a sign and a number between two marks. -/
def distance? (opening closing : List Char) (cs : List Char) : Option (Int × List Char) := do
  if !opening.isPrefixOf cs then none
  let (sign, cs) ← match cs.drop opening.length with
    | '-' :: cs => some (-1, cs)
    | '+' :: cs => some (1, cs)
    | _ => none
  let (n, cs) ← number? cs
  if closing.isPrefixOf cs then some (sign * (n : Int), cs.drop closing.length) else none

/-- Notes a reference to a group, which must have been opened already; the whole match is group 0. -/
def refer (n : Nat) : Reader Unit := do
  let s ← get
  if s.groups < n then fail
  set { s with referred := n :: s.referred }

/-- Notes a reference by distance: `-1` is the group opened last. It may not go below group 0. -/
def referAt (distance : Int) : Reader Unit := do
  let target := (← get).groups + (if distance < 0 then distance + 1 else distance)
  if target < 0 then fail else refer target.toNat

/-- A reference by number at the head of the text. -/
def numberedReference : Reader Unit := do
  let s ← get
  match number? s.rest with
  | none => fail
  | some (n, rest) =>
    if s.size / 2 ≤ n then fail
    set { s with rest, numbered := true }
    refer n

/-- A reference by name, by number or, where allowed, by distance, between two marks. -/
def namedReference (opening closing : List Char) (byDistance : Bool) : Reader Unit := do
  let s ← get
  match name? opening closing s.rest with
  | some (name, rest) =>
    setRest rest
    match s.names.lookup name with
    | some n => refer n
    | none =>
      match number? name.toList with
      | some (n, []) => refer n
      | _ => fail
  | none =>
    if !byDistance then fail
    match distance? opening closing s.rest with
    | none => fail
    | some (d, rest) =>
      setRest rest
      referAt d

/-- What an escape stands for. -/
inductive Escape where
  | char (c : Char)
  /-- A set of characters and the space its automaton takes. -/
  | set (cost : Nat)
  /-- A set of characters that a bracketed class spells. -/
  | spelled (bracketedClass : String)
  | anchor (backtracks : Bool)
  | mark
  | backref

/-- Space for one character with its encoding. -/
def charCost (c : Char) : Nat := 32 * c.utf8Size

/-- A character given by its code. -/
def charOfCode? (n : Nat) : Option Char := if n.isValidChar then some (Char.ofNat n) else none

/-- A character code of exactly `count` digits, or of one to eight between braces. -/
def codeEscape (count : Nat) : Reader Escape := do
  let cs ← getRest
  let (digits, rest) ←
    if (cs.take count).length = count && (cs.take count).all (isDigitOf 16) then
      pure (cs.take count, cs.drop count)
    else match cs with
      | '\x7b' :: cs =>
        let digits := cs.takeWhile (isDigitOf 16)
        match cs.drop digits.length with
        | '\x7d' :: rest =>
          if digits.isEmpty || 8 < digits.length then fail else pure (digits, rest)
        | _ => fail
      | _ => fail
  setRest rest
  match charOfCode? (naturalOfDigits 16 digits) with
  | some c => pure (.char c)
  | none => fail

/-- A property of characters: one letter, or a query between braces. -/
def propertyEscape : Reader Escape := do
  let (query, rest) ← match ← getRest with
    | [] => fail
    | '\x7b' :: cs =>
      let query := cs.takeWhile (· ≠ '\x7d')
      match cs.drop query.length with
      | [] => fail
      | _ :: rest => pure (query, rest)
    | c :: rest => if isPropertyName [c] then pure ([c], rest) else fail
  if isPropertyQuery query then
    setRest rest
    pure (.set 20000)
  else fail

/-- Letters that stand for a position or a reference, and inside a class for a character. -/
def positionLetters : List Char := ['k', 'A', 'z', 'b', 'B', 'K', 'G']

/-- An escape from just after its backslash. Inside a class there are no assertions. -/
def escape (inClass : Bool) : Reader Escape := do
  match ← getRest with
  | [] => fail
  | c :: rest =>
    if isDecimalDigit c then
      numberedReference
      return .backref
    setRest rest
    if inClass && positionLetters.contains c then
      return .char (if c = 'b' then '\x08' else c)
    match c with
    | 'k' =>
      match rest with
      | '\'' :: _ => namedReference ['\''] ['\''] true
      | _ => namedReference ['<'] ['>'] true
      return .backref
    | 'A' | 'z' => return .anchor false
    | 'b' | 'B' => if rest.head? = some '\x7b' then fail else return .anchor true
    | '<' | '>' => if inClass then return .char c else return .anchor true
    | 'K' | 'G' => return .mark
    | 'd' | 'D' => return .set 6000
    | 's' | 'S' => return .set 700
    | 'w' | 'W' => return .set 50000
    | 'h' => return .spelled "[0-9A-Fa-f]"
    | 'H' => return .spelled "[^0-9A-Fa-f]"
    | 'a' => return .char '\x07'
    | 'f' => return .char '\x0c'
    | 'n' => return .char '\n'
    | 'r' => return .char '\r'
    | 't' => return .char '\t'
    | 'v' => return .char '\x0b'
    | 'e' => return .char '\x1b'
    | 'x' => codeEscape 2
    | 'u' => codeEscape 4
    | 'U' => codeEscape 8
    | 'p' | 'P' => propertyEscape
    | c => if c.isAlpha then fail else return .char c

/--
The tokens of a bracketed class up to the bracket that closes it. The fuel bounds the characters
read.
-/
def classTokens : Nat → Nat → Reader (List ClassToken)
  | 0, _ => fail
  | fuel + 1, depth => do
    match ← getRest with
    | [] => fail
    | '\\' :: rest =>
      setRest rest
      let tokens ← match ← escape true with
        | .char c => pure [.char c]
        | .set _ => pure [.set]
        | .spelled text => pure (text.toList.map .raw)
        | _ => fail
      return tokens ++ (← classTokens fuel depth)
    | '[' :: rest =>
      setRest rest
      return .raw '[' :: (← classTokens fuel (depth + 1))
    | ']' :: rest =>
      setRest rest
      match depth with
      | 0 => return [.raw ']']
      | depth + 1 => return .raw ']' :: (← classTokens fuel depth)
    | c :: rest =>
      setRest rest
      return .raw c :: (← classTokens fuel depth)

/-- A bracketed class from just after its opening bracket. -/
def bracketed : Reader Pattern := do
  let cs ← getRest
  let (caret, cs) := match cs with
    | '^' :: rest => ([ClassToken.raw '^'], rest)
    | _ => ([], cs)
  let (bracket, cs) := match cs with
    | ']' :: rest => ([ClassToken.raw ']'], rest)
    | _ => ([], cs)
  setRest cs
  let tokens ← classTokens (cs.length + 1) 0
  let tokens := caret ++ bracket ++ tokens
  if isWellFormedClass tokens then return .item (40 * tokens.length) else fail

/-- Groups nested deeper than this cannot be read. -/
def maxGroupDepth : Nat := 64

/--
The flags of a group, up to the parenthesis that ends it or the colon before its content, which the
result tells apart. `bare` holds as long as nothing but a hyphen has been read since the question
mark: no parenthesis may come then, nor a colon after the hyphen. A hyphen after other flags may
end them. The fuel bounds the characters read.
-/
def flags : Nat → Bool → Bool → Reader Bool
  | 0, _, _ => fail
  | fuel + 1, negative, bare => do
    let before := (← getRest).length
    skip
    let cs ← getRest
    let bare := bare && cs.length = before
    match cs with
    | [] => fail
    | c :: rest =>
      setRest rest
      match c with
      | 'i' | 'm' | 's' | 'U' => flags fuel negative false
      | 'x' =>
        modify fun s => { s with extended := !negative }
        flags fuel negative false
      | 'u' => if negative then fail else flags fuel negative false
      | '-' => if negative then fail else flags fuel true bare
      | ')' => if bare then fail else return false
      | ':' => if bare && negative then fail else return true
      | _ => fail

/-- A closing parenthesis, after anything that does not count. -/
def closeParen : Reader Unit := do
  skip
  match ← getRest with
  | ')' :: rest => setRest rest
  | _ => fail

/-- Parts of a sequence as one pattern. -/
def ofParts : List Pattern → Pattern
  | [] => .empty
  | [p] => p
  | ps => .concat ps

def isEmpty : Pattern → Bool
  | .empty => true
  | _ => false

/-- The pattern of an escape outside a class. -/
def ofEscape : Escape → Pattern
  | .char c => .item (charCost c)
  | .set n => .item n
  | .spelled _ => .item 100
  | .anchor b => .anchor b
  | .mark => .mark
  | .backref => .backref

/-- Opens a group under a name. -/
def openNamed (opening closing : List Char) : Reader Nat := do
  let s ← get
  match name? opening closing s.rest with
  | none => fail
  | some (name, rest) =>
    let number := s.groups + 1
    set { s with rest, groups := number, names := (name, number) :: s.names }
    return number

mutual
/-- Branches up to a closing parenthesis or the end. -/
def branches : Nat → Nat → Reader Pattern
  | 0, _ => fail
  | fuel + 1, depth => do
    let first ← sequence fuel depth
    skip
    match ← getRest with
    | '|' :: rest =>
      setRest rest
      return .alt (first :: (← moreBranches fuel depth))
    | _ =>
      let s ← get
      if s.numbered && !s.names.isEmpty then fail
      return first
/-- The branches after the first one. -/
def moreBranches : Nat → Nat → Reader (List Pattern)
  | 0, _ => fail
  | fuel + 1, depth => do
    let branch ← sequence fuel depth
    skip
    match ← getRest with
    | '|' :: rest =>
      setRest rest
      return branch :: (← moreBranches fuel depth)
    | _ => return [branch]
/-- One branch. -/
def sequence : Nat → Nat → Reader Pattern
  | 0, _ => fail
  | fuel + 1, depth => return ofParts (← pieces fuel depth)
/-- The parts of a branch, as long as reading one moves on. -/
def pieces : Nat → Nat → Reader (List Pattern)
  | 0, _ => fail
  | fuel + 1, depth => do
    let before := (← getRest).length
    if before = 0 then return []
    let p ← piece fuel depth
    if (← getRest).length = before then return []
    let ps ← pieces fuel depth
    return if isEmpty p then ps else p :: ps
/-- An atom with its quantifier. -/
def piece : Nat → Nat → Reader Pattern
  | 0, _ => fail
  | fuel + 1, depth => do
    let p ← atom fuel depth
    skip
    let s ← get
    let quantifier := match s.rest with
      | '?' :: rest => some ((0, some 1), rest)
      | '*' :: rest => some ((0, none), rest)
      | '+' :: rest => some ((1, none), rest)
      | '\x7b' :: rest => bounds? s.extended rest
      | _ => none
    match quantifier with
    | none => return p
    | some ((low, high), rest) =>
      if !isRepeatable p then fail
      setRest rest
      skip
      let rest ← getRest
      let rest := match rest with
        | '?' :: rest => rest
        | _ => rest
      let repeated : Pattern := .repetition p low high
      match rest with
      | '+' :: rest =>
        setRest rest
        return .atomic repeated
      | _ =>
        setRest rest
        return repeated
/-- The smallest unit: a character, a class, an escape, an assertion or a group. -/
def atom : Nat → Nat → Reader Pattern
  | 0, _ => fail
  | fuel + 1, depth => do
    skip
    match ← getRest with
    | [] => return .empty
    | '.' :: rest =>
      setRest rest
      return .item 600
    | '^' :: rest | '$' :: rest =>
      setRest rest
      return .anchor false
    | '(' :: rest =>
      setRest rest
      groupOf fuel (depth + 1)
    | '\\' :: rest =>
      setRest rest
      return ofEscape (← escape false)
    | '+' :: _ | '*' :: _ | '?' :: _ | '|' :: _ | ')' :: _ => return .empty
    | '[' :: rest =>
      setRest rest
      bracketed
    | c :: rest =>
      setRest rest
      return .item (charCost c)
/-- A group from just after its opening parenthesis. -/
def groupOf : Nat → Nat → Reader Pattern
  | 0, _ => fail
  | fuel + 1, depth => do
    if maxGroupDepth ≤ depth then fail
    skip
    match ← getRest with
    | '?' :: '=' :: rest | '?' :: '!' :: rest =>
      setRest rest
      let inner ← branches fuel depth
      closeParen
      return .look false inner
    | '?' :: '<' :: '=' :: rest | '?' :: '<' :: '!' :: rest =>
      setRest rest
      let inner ← branches fuel depth
      closeParen
      return .look true inner
    | '?' :: 'P' :: '<' :: rest | '?' :: '<' :: rest =>
      setRest rest
      let number ← openNamed [] ['>']
      let inner ← branches fuel depth
      closeParen
      return .group number inner
    | '?' :: 'P' :: '=' :: rest =>
      setRest rest
      namedReference [] [')'] false
      return .backref
    | '?' :: '>' :: rest =>
      setRest rest
      let inner ← branches fuel depth
      closeParen
      return .atomic inner
    | '?' :: '(' :: rest =>
      setRest rest
      conditionalOf fuel depth
    | '?' :: rest =>
      let outer := (← get).extended
      setRest rest
      if ← flags (rest.length + 1) false true then
        let inner ← branches fuel depth
        match ← getRest with
        | ')' :: rest =>
          modify fun s => { s with rest, extended := outer }
          return inner
        | _ => fail
      else return .empty
    | rest =>
      setRest rest
      let number := (← get).groups + 1
      modify fun s => { s with groups := number }
      let inner ← branches fuel depth
      closeParen
      return .group number inner
/-- A conditional from just after the parenthesis that opens its test. -/
def conditionalOf : Nat → Nat → Reader Pattern
  | 0, _ => fail
  | fuel + 1, depth => do
    let test ← match ← getRest with
      | [] => fail
      | '\'' :: _ => do
        namedReference ['\''] ['\''] true
        pure .groupTest
      | '<' :: _ => do
        namedReference ['<'] ['>'] true
        pure .groupTest
      | c :: _ =>
        if isDecimalDigit c then do
          numberedReference
          pure .groupTest
        else do
          let test ← branches fuel depth
          pure (match test with
            | .backref => .groupTest
            | test => test)
    closeParen
    let before := (← getRest).length
    let body ← branches fuel depth
    if (← getRest).length = before then
      closeParen
      match test with
      | .groupTest => return .groupTest
      | _ => fail
    else
      closeParen
      let (yes, no) := match body with
        | .alt (yes :: rest) => (yes, match rest with
          | [no] => no
          | rest => .alt rest)
        | yes => (yes, .empty)
      if isEmpty yes && isEmpty no then return test
      return .conditional test yes no
end

/-- The pattern a text denotes, and the groups it refers to. -/
def parse? (text : String) : Option (Pattern × List Nat) :=
  let cs := text.toList
  let start : ReaderState := ⟨cs, false, [], false, [], 0, text.utf8ByteSize⟩
  match (branches (8 * cs.length + 8) 0).run start with
  | some (p, s) => if s.rest.isEmpty then some (p, s.referred) else none
  | none => none

/-- Whether a text is a pattern that can be used. -/
def isPattern (text : String) : Bool :=
  match parse? text with
  | some (p, refs) => if backtracks refs p then isUsable refs true p else hasAutomaton p
  | none => false

end TypedDocs.Pattern
