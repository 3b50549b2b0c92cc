import TypedDocs.Log.Event

/-!
# Which events are logged

A threshold is a list of directives, separated by commas. A directive names a level,
a target, or a target with its level. Of the directives whose target starts that of
an event, the one with the longest target decides; a target without a level lets
everything through.
-/

namespace TypedDocs

/-- Lets through what is at most of rank `rank`, of targets that start with `target`. -/
structure Directive where
  target : String
  rank : Nat
deriving DecidableEq

abbrev Threshold := List Directive

namespace Threshold

/-- What is logged where nothing else is asked for. -/
def standard : Threshold := [⟨"", Level.warn.rank⟩]

/-- The rank that the name of a level, or its number, stands for. -/
def rank? (text : String) : Option Nat :=
  let names := ["off", "error", "warn", "info", "debug", "trace"]
  let lower := String.ofList (text.toList.map Char.toLower)
  match names.findIdx? (· = lower) with
  | some n => some n
  | none => ["0", "1", "2", "3", "4", "5"].findIdx? (· = text)

def isTargetChar (c : Char) : Bool := c.isAlphanum || c = '_' || c = ':' || c = '-'

def directive? (text : String) : Option Directive :=
  match rank? text with
  | some rank => some ⟨"", rank⟩
  | none =>
    let cs := text.toList
    let target := cs.takeWhile isTargetChar
    if target.isEmpty then none
    else match cs.drop target.length with
      | [] | ['='] => some ⟨String.ofList target, Level.trace.rank⟩
      | '=' :: level => (rank? (String.ofList level)).map fun rank => ⟨String.ofList target, rank⟩
      | _ => none

/-- The directives of a text. Without any, only errors are logged. -/
def parse? (text : String) : Option Threshold :=
  let parts := ((partsAt ',' text.toList).map String.ofList).filter (!·.isEmpty)
  if parts.isEmpty then some [⟨"", Level.error.rank⟩] else parts.mapM directive?

/-- The threshold that a text asks for; one that cannot be read asks for the standard. -/
def ofText (text : Option String) : Threshold := (text.bind parse?).getD standard

/-- The directive that decides about a target: the longest one, and of equals the last. -/
def deciding? (t : Threshold) (target : String) : Option Directive :=
  t.foldl (fun best d =>
    if d.target.toList.isPrefixOf target.toList ∧
        best.all (fun b => b.target.length ≤ d.target.length) then some d
    else best) none

def admits (t : Threshold) (e : Event) : Bool :=
  (t.deciding? e.target).any fun d => e.level.rank ≤ d.rank

end Threshold

end TypedDocs
