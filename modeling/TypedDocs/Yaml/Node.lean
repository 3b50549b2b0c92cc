import TypedDocs.Yaml.Token
import TypedDocs.Dictionary

/-!
# YAML nodes

A node is a scalar, a sequence or a mapping, with the tag it was written with. Tags
are resolved by the handles in force, and an alias stands for the node that carries
its anchor. A text with more than one document has no node; a text without any has
the empty one.
-/

namespace TypedDocs.Yaml

inductive Node where
  | scalar (tag : Option String) (plain : Bool) (text : String)
  | sequence (tag : Option String) (items : List Node)
  | mapping (tag : Option String) (entries : List (Node × Node))

namespace Node

/-- What stands where nothing is written. -/
def empty (tag : Option String) : Node := .scalar tag true ""

instance : Inhabited Node := ⟨.empty none⟩

/-- The tokens to be read, and what the names in them stand for. -/
structure Source where
  tokens : List Token
  handles : Dictionary String
  anchors : Dictionary Node

/-- A step of reading, which takes tokens from the source or fails. -/
abbrev Reader (α : Type) := Source → Option (α × Source)

namespace Source

def head? (s : Source) : Option Token := s.tokens.head?

def tail (s : Source) : Source := { s with tokens := s.tokens.drop 1 }

/-- Whether the next token is one of a list; the end of the tokens never is. -/
def at? (s : Source) (ts : List Token) : Bool := s.head?.any (ts.contains ·)

end Source

/-- The expansion of each handle that needs no directive. -/
def standardHandles : Dictionary String :=
  Dictionary.ofList [("!", "!"), ("!!", "tag:yaml.org,2002:")]

/-- A tag with its handle expanded. -/
def expandTag? (s : Source) (handle suffix : String) : Option String :=
  if handle.isEmpty then some suffix else (s.handles.get? handle).map (· ++ suffix)

/-- An anchor and a tag before a node, each at most once and in either order. -/
structure Properties where
  anchor : Option String := none
  tag : Option String := none

def properties? (s : Source) : Option (Properties × Source) :=
  let anchor (p : Properties) (s : Source) : Properties × Source := match s.head? with
    | some (.anchor name) => ({ p with anchor := some name }, s.tail)
    | _ => (p, s)
  let tag (p : Properties) (s : Source) : Option (Properties × Source) := match s.head? with
    | some (.tag handle suffix) => do
      let t ← expandTag? s handle suffix
      some ({ p with tag := some t }, s.tail)
    | _ => some (p, s)
  match s.head? with
  | some (.tag _ _) => (tag {} s).map fun r => anchor r.1 r.2
  | _ =>
    let (p, s) := anchor {} s
    tag p s

mutual
/--
A node. Where `block` is set, blocks may start; where `indentless` is set, so may a sequence
whose dashes stand in the column of the mapping around it.
-/
def node? (block indentless : Bool) : Nat → Reader Node
  | 0, _ => none
  | fuel + 1, s =>
    match s.head? with
    | some (.alias name) => (s.anchors.get? name).map fun n => (n, s.tail)
    | _ => do
      let (p, s) ← properties? s
      let s := match p.anchor with
        | some name => { s with anchors := s.anchors.erase name }
        | none => s
      let (n, s) ← content? block indentless fuel p s
      match p.anchor with
      | some name => some (n, { s with anchors := s.anchors.insert name n })
      | none => some (n, s)
/-- What follows the properties of a node. -/
def content? (block indentless : Bool) : Nat → Properties → Reader Node
  | 0, _, _ => none
  | fuel + 1, p, s =>
    match s.head? with
    | some (.scalar plain text) => some (.scalar p.tag plain text, s.tail)
    | some .flowSequenceStart =>
      (flowItems? true fuel s.tail).map fun r => (.sequence p.tag r.1, r.2)
    | some .flowMappingStart =>
      (flowEntries? true fuel s.tail).map fun r => (.mapping p.tag r.1, r.2)
    | t =>
      if indentless && t = some .blockEntry then
        (indentlessItems? fuel s).map fun r => (.sequence p.tag r.1, r.2)
      else if block && t = some .blockSequenceStart then
        (blockItems? fuel s.tail).map fun r => (.sequence p.tag r.1, r.2)
      else if block && t = some .blockMappingStart then
        (blockEntries? fuel s.tail).map fun r => (.mapping p.tag r.1, r.2)
      else if p.anchor.isSome || p.tag.isSome then some (.empty p.tag, s)
      else none
/-- A node, or the empty one before certain tokens. -/
def nodeUnless? (block indentless : Bool) (ends : List Token) : Nat → Reader Node
  | 0, _ => none
  | fuel + 1, s =>
    if s.at? ends then some (.empty none, s) else node? block indentless fuel s
/-- The items of a block sequence. -/
def blockItems? : Nat → Reader (List Node)
  | 0, _ => none
  | fuel + 1, s =>
    match s.head? with
    | some .blockEntry => do
      let (n, s) ← nodeUnless? true false [.blockEntry, .blockEnd] fuel s.tail
      let (ns, s) ← blockItems? fuel s
      some (n :: ns, s)
    | some .blockEnd => some ([], s.tail)
    | _ => none
/-- The items of a sequence that ends with the dashes. -/
def indentlessItems? : Nat → Reader (List Node)
  | 0, _ => none
  | fuel + 1, s =>
    match s.head? with
    | some .blockEntry => do
      let (n, s) ← nodeUnless? true false [.blockEntry, .key, .value, .blockEnd] fuel s.tail
      let (ns, s) ← indentlessItems? fuel s
      some (n :: ns, s)
    | _ => some ([], s)
/-- The entries of a block mapping. -/
def blockEntries? : Nat → Reader (List (Node × Node))
  | 0, _ => none
  | fuel + 1, s =>
    match s.head? with
    | some .key => do
      let (k, s) ← nodeUnless? true true [.key, .value, .blockEnd] fuel s.tail
      let (v, s) ← if s.head? = some .value
        then nodeUnless? true true [.key, .value, .blockEnd] fuel s.tail
        else some (.empty none, s)
      let (es, s) ← blockEntries? fuel s
      some ((k, v) :: es, s)
    | some .blockEnd => some ([], s.tail)
    | _ => none
/-- The items of a flow sequence. -/
def flowItems? (first : Bool) : Nat → Reader (List Node)
  | 0, _ => none
  | fuel + 1, s =>
    if s.head? = some .flowSequenceEnd then some ([], s.tail)
    else do
      let s ← if first then some s else if s.head? = some .flowEntry then some s.tail else none
      if s.head? = some .flowSequenceEnd then some ([], s.tail)
      else do
        let (n, s) ← if s.head? = some .key then flowPair? fuel s.tail else node? false false fuel s
        let (ns, s) ← flowItems? false fuel s
        some (n :: ns, s)
/-- A mapping of one entry inside a flow sequence. -/
def flowPair? : Nat → Reader Node
  | 0, _ => none
  | fuel + 1, s => do
    let (k, s) ← nodeUnless? false false [.value, .flowEntry, .flowSequenceEnd] fuel s
    let (v, s) ← if s.head? = some .value
      then nodeUnless? false false [.flowEntry, .flowSequenceEnd] fuel s.tail
      else some (.empty none, s)
    some (.mapping none [(k, v)], s)
/-- The entries of a flow mapping. -/
def flowEntries? (first : Bool) : Nat → Reader (List (Node × Node))
  | 0, _ => none
  | fuel + 1, s =>
    if s.head? = some .flowMappingEnd then some ([], s.tail)
    else do
      let s ← if first then some s else if s.head? = some .flowEntry then some s.tail else none
      if s.head? = some .flowMappingEnd then some ([], s.tail)
      else do
        let (e, s) ← if s.head? = some .key then do
            let (k, s) ← nodeUnless? false false [.value, .flowEntry, .flowMappingEnd] fuel s.tail
            let (v, s) ← if s.head? = some .value
              then nodeUnless? false false [.flowEntry, .flowMappingEnd] fuel s.tail
              else some (.empty none, s)
            some ((k, v), s)
          else (node? false false fuel s).map fun r => ((r.1, .empty none), r.2)
        let (es, s) ← flowEntries? false fuel s
        some (e :: es, s)
end

/-- Takes in the directives before a document. At most one version, and each handle once. -/
def directives? (versioned : Bool) (own : List String) : List Token → Dictionary String →
    Option (Dictionary String × List Token)
  | .version major minor :: ts, handles =>
    if versioned ∨ major ≠ 1 ∨ (minor ≠ 1 ∧ minor ≠ 2) then none
    else directives? true own ts handles
  | .handle name expansion :: ts, handles =>
    if own.contains name then none
    else directives? versioned (name :: own) ts (handles.insert name expansion)
  | ts, handles => some (handles, ts)

/-- The tokens at which a document is over. -/
def endsDocument : Option Token → Bool
  | none | some .documentStart | some .documentEnd | some (.version _ _) | some (.handle _ _) => true
  | _ => false

/-- The node of the only document that tokens describe, or the empty node if there is none. -/
def ofTokens? (tokens : List Token) : Option Node :=
  let fuel := 4 * tokens.length + 4
  let rest? (r : Node × Source) : Option Node :=
    let ended := r.2.tokens.dropWhile (· = .documentEnd)
    if ended.isEmpty then some r.1 else none
  match tokens with
  | [] => some (.empty none)
  | t :: _ =>
    if endsDocument (some t) then do
      let (handles, ts) ← directives? false [] tokens standardHandles
      if ts.head? ≠ some .documentStart then none
      else
        let s : Source := ⟨ts.drop 1, handles, Dictionary.empty⟩
        if endsDocument s.head? then rest? (.empty none, s)
        else (node? true false fuel s).bind rest?
    else (node? true false fuel ⟨tokens, standardHandles, Dictionary.empty⟩).bind rest?

/-- Reads a text with at most one document. -/
def parse? (text : String) : Option Node := (tokens? text).bind ofTokens?

end Node

end TypedDocs.Yaml
