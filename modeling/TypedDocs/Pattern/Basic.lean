/-!
# Patterns

A `Pattern` is a regular expression with backtracking features, as far as it
matters for the question whether it can be used at all. Parts without such
features are handed to an automaton, which bounds repetitions and the size of
what it builds; parts with them are matched by backtracking, which bounds neither.
A look-behind needs an inner pattern of one fixed length.
-/

namespace TypedDocs

inductive Pattern where
  | empty
  /-- One character out of a set; `cost` is the space its automaton takes. -/
  | item (cost : Nat)
  /-- An assertion about a position; those about word boundaries need backtracking. -/
  | anchor (backtracks : Bool)
  /-- A position mark of the match itself. -/
  | mark
  | concat (parts : List Pattern)
  | alt (branches : List Pattern)
  | group (number : Nat) (inner : Pattern)
  | look (behind : Bool) (inner : Pattern)
  /-- From `low` to `high` times; without `high` there is no bound. -/
  | repetition (inner : Pattern) (low : Nat) (high : Option Nat)
  | backref
  /-- Whether a group has matched. -/
  | groupTest
  | atomic (inner : Pattern)
  | conditional (test yes no : Pattern)

namespace Pattern

/-- Position tests and nothing at all cannot be repeated. -/
def isRepeatable : Pattern → Bool
  | .empty | .anchor _ | .look _ _ => false
  | _ => true

mutual
/-- Needs backtracking; `refs` are the groups referred to from somewhere. -/
def backtracks (refs : List Nat) : Pattern → Bool
  | .empty | .item _ => false
  | .anchor b => b
  | .mark | .look _ _ | .backref | .groupTest | .atomic _ | .conditional _ _ _ => true
  | .concat ps | .alt ps => anyBacktracks refs ps
  | .group n p => backtracks refs p || refs.contains n
  | .repetition p _ _ => backtracks refs p
/-- One of the patterns needs backtracking. -/
def anyBacktracks (refs : List Nat) : List Pattern → Bool
  | [] => false
  | p :: ps => backtracks refs p || anyBacktracks refs ps
end

mutual
/-- The least number of characters a match takes. -/
def minLength : Pattern → Nat
  | .empty | .anchor _ | .mark | .look _ _ | .backref | .groupTest => 0
  | .item _ => 1
  | .concat ps => sumLengths ps
  | .alt ps => leastLength ps
  | .group _ p | .atomic p => minLength p
  | .repetition p low _ => minLength p * low
  | .conditional c yes no => minLength c + min (minLength yes) (minLength no)
/-- The sum of the least lengths. -/
def sumLengths : List Pattern → Nat
  | [] => 0
  | p :: ps => minLength p + sumLengths ps
/-- The least of the least lengths. -/
def leastLength : List Pattern → Nat
  | [] => 0
  | [p] => minLength p
  | p :: ps => min (minLength p) (leastLength ps)
end

mutual
/-- All matches are known to have one length. -/
def hasFixedLength : Pattern → Bool
  | .empty | .item _ | .anchor _ | .mark | .look _ _ | .groupTest => true
  | .backref => false
  | .concat ps => allFixed ps
  | .alt ps => allFixed ps && sameLengths ps
  | .group _ p | .atomic p => hasFixedLength p
  | .repetition p low high => hasFixedLength p && high = some low
  | .conditional c yes no =>
    hasFixedLength c && hasFixedLength yes && hasFixedLength no &&
      minLength c + minLength yes = minLength no
/-- Each pattern has a fixed length. -/
def allFixed : List Pattern → Bool
  | [] => true
  | p :: ps => hasFixedLength p && allFixed ps
/-- The patterns have the same least length. -/
def sameLengths : List Pattern → Bool
  | [] => true
  | p :: ps => (match ps with
    | [] => true
    | q :: _ => minLength p = minLength q) && sameLengths ps
end

mutual
/-- The space an automaton for the pattern takes, roughly. -/
def cost : Pattern → Nat
  | .item n => n
  | .concat ps | .alt ps => sumCosts ps
  | .group _ p | .atomic p | .look _ p => cost p
  | .repetition p low high => cost p * max 1 (high.getD low)
  | .conditional c yes no => cost c + cost yes + cost no
  | .empty | .anchor _ | .mark | .backref | .groupTest => 0
/-- The sum of the costs. -/
def sumCosts : List Pattern → Nat
  | [] => 0
  | p :: ps => cost p + sumCosts ps
end

/-- The space an automaton may take. -/
def maxCost : Nat := 10485760

/-- The repetitions that an automaton can count lie below this number. -/
def countLimit : Nat := 4294967296

mutual
/-- Every repetition can be counted by an automaton. -/
def hasCountable : Pattern → Bool
  | .concat ps | .alt ps => allCountable ps
  | .group _ p | .atomic p | .look _ p => hasCountable p
  | .repetition p low high =>
    hasCountable p && low < countLimit &&
      (match high with
        | none => true
        | some h => h < countLimit && low ≤ h)
  | .conditional c yes no => hasCountable c && hasCountable yes && hasCountable no
  | .empty | .item _ | .anchor _ | .mark | .backref | .groupTest => true
/-- The same of each pattern of a list. -/
def allCountable : List Pattern → Bool
  | [] => true
  | p :: ps => hasCountable p && allCountable ps
end

/-- An automaton can be built. -/
def hasAutomaton (p : Pattern) : Bool := hasCountable p && cost p ≤ maxCost

/-- Counts the patterns at the head of a list that satisfy a test. -/
def leading (test : Pattern → Bool) (ps : List Pattern) : Nat := (ps.takeWhile test).length

/--
Which parts of a sequence go to an automaton: those of fixed length at its head, and those at its
end, where the length matters only if something that backtracks surrounds the sequence.
-/
def automatonParts (refs : List Nat) (inBacktracking : Bool) (ps : List Pattern) : List Bool :=
  let plain (p : Pattern) := !backtracks refs p
  let fixed (p : Pattern) := plain p && hasFixedLength p
  let head := leading fixed ps
  let rest := ps.drop head
  let tail := leading (if inBacktracking then fixed else plain) rest.reverse
  List.replicate head true ++ List.replicate (rest.length - tail) false ++ List.replicate tail true

mutual
/-- Can be prepared for matching, inside something that backtracks or not. -/
def isUsable (refs : List Nat) (inBacktracking : Bool) : Pattern → Bool
  | .concat ps =>
    if !inBacktracking && !anyBacktracks refs ps then hasAutomaton (.concat ps)
    else partsUsable refs (automatonParts refs inBacktracking ps) ps
  | .alt ps =>
    if !inBacktracking && !anyBacktracks refs ps then hasAutomaton (.alt ps)
    else branchesUsable refs inBacktracking ps
  | .group n p =>
    if !inBacktracking && !backtracks refs (.group n p) then hasAutomaton p
    else isUsable refs inBacktracking p
  | .repetition p low high =>
    if !inBacktracking && !backtracks refs p then hasAutomaton (.repetition p low high)
    else if low = 0 ∧ high = some 1 then isUsable refs inBacktracking p
    else isUsable refs (inBacktracking || backtracks refs p) p
  | .look true (.alt ps) =>
    if hasFixedLength (.alt ps) then isUsable refs false (.alt ps) else behindUsable refs ps
  | .look true p => hasFixedLength p && isUsable refs false p
  | .look false p => isUsable refs false p
  | .atomic p => isUsable refs false p
  | .conditional c yes no =>
    isUsable refs inBacktracking c && isUsable refs inBacktracking yes &&
      isUsable refs inBacktracking no
  | .item n => n ≤ maxCost
  | .empty | .anchor _ | .mark | .backref | .groupTest => true
/-- Each part of a sequence can be prepared, by an automaton where the list says so. -/
def partsUsable (refs : List Nat) (byAutomaton : List Bool) : List Pattern → Bool
  | [] => true
  | p :: ps =>
    (if byAutomaton.head?.getD false then hasAutomaton p else isUsable refs true p) &&
      partsUsable refs byAutomaton.tail ps
/-- Each branch can be prepared. -/
def branchesUsable (refs : List Nat) (inBacktracking : Bool) : List Pattern → Bool
  | [] => true
  | p :: ps => isUsable refs inBacktracking p && branchesUsable refs inBacktracking ps
/-- Each branch of a look-behind has a fixed length of its own and can be prepared. -/
def behindUsable (refs : List Nat) : List Pattern → Bool
  | [] => true
  | p :: ps => hasFixedLength p && isUsable refs false p && behindUsable refs ps
end

end Pattern

end TypedDocs
