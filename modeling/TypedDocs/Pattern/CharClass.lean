import TypedDocs.Pattern.Property
import TypedDocs.Number.Decimal

/-!
# Bracketed character classes

The content of a bracketed class is a list of tokens: characters with their
syntactic meaning, characters stripped of it by an escape, and escapes that stand
for a class of their own. `isWellFormedClass` decides whether such a content is a
class: brackets match, both ends of a range are single characters in order, and
double `&`, `-` and `~` combine classes.
-/

namespace TypedDocs.Pattern

inductive ClassToken where
  /-- A character as written, which may be syntax. -/
  | raw (c : Char)
  /-- An escaped character, which is only itself. -/
  | char (c : Char)
  /-- An escape for a set of characters. -/
  | set
deriving DecidableEq

namespace ClassToken

/-- The character a token stands for as an end of a range. -/
def char? : ClassToken → Option Char
  | raw c => some c
  | char c => some c
  | set => none

end ClassToken

/-- The named classes that may stand in a bracketed class between `[:` and `:]`. -/
def asciiClassNames : List String :=
  ["alnum", "alpha", "ascii", "blank", "cntrl", "digit", "graph", "lower", "print", "punct",
   "space", "upper", "word", "xdigit"]

/-- What follows the name of a named class, if the tokens after `[:` spell one. -/
def afterAsciiClass? (tokens : List ClassToken) : Option (List ClassToken) :=
  let tokens := match tokens with
    | .raw '^' :: rest => rest
    | _ => tokens
  let name := tokens.takeWhile (· ≠ .raw ':')
  match tokens.drop name.length with
  | .raw ':' :: .raw ']' :: rest =>
    if asciiClassNames.contains (String.ofList (name.filterMap ClassToken.char?)) &&
        name.all (·.char?.isSome)
    then some rest else none
  | _ => none

/--
The tokens just after an opening bracket: a caret negates, hyphens at the head are themselves,
and so is a closing bracket that would make the class empty.
-/
def afterOpening (tokens : List ClassToken) : List ClassToken :=
  let tokens := match tokens with
    | .raw '^' :: rest => rest
    | _ => tokens
  match tokens with
  | .raw '-' :: _ => tokens.dropWhile (· = .raw '-')
  | .raw ']' :: rest => rest
  | _ => tokens

/-- Two ends of a range in order. -/
def isRange (low high : ClassToken) : Bool :=
  match low.char?, high.char? with
  | some a, some b => a ≤ b
  | _, _ => false

/-- Reads items up to the bracket that closes the outermost of `depth + 1` open classes. -/
def closes : Nat → Nat → List ClassToken → Bool
  | 0, _, _ => false
  | _ + 1, _, [] => false
  | fuel + 1, depth, .raw '[' :: rest =>
    let named := match rest with
      | .raw ':' :: name => afterAsciiClass? name
      | _ => none
    match named with
    | some rest => closes fuel depth rest
    | none => closes fuel (depth + 1) (afterOpening rest)
  | fuel + 1, depth, .raw ']' :: rest =>
    match depth with
    | 0 => true
    | depth + 1 => closes fuel depth rest
  | fuel + 1, depth, .raw '&' :: .raw '&' :: rest => closes fuel depth rest
  | fuel + 1, depth, .raw '-' :: .raw '-' :: rest => closes fuel depth rest
  | fuel + 1, depth, .raw '~' :: .raw '~' :: rest => closes fuel depth rest
  | fuel + 1, depth, low :: .raw '-' :: high :: rest =>
    if high = .raw ']' ∨ high = .raw '-' then closes fuel depth (.raw '-' :: high :: rest)
    else isRange low high && closes fuel depth rest
  | fuel + 1, depth, _ :: rest => closes fuel depth rest

/-- Whether the tokens after the opening bracket, with the closing one, make a class. -/
def isWellFormedClass (tokens : List ClassToken) : Bool :=
  closes (tokens.length + 1) 0 (afterOpening tokens)

end TypedDocs.Pattern
