import TypedDocs.Proofs.Json.Depth
import TypedDocs.Proofs.Json.Names
import TypedDocs.Proofs.Json.Numerals
import TypedDocs.Proofs.Json.Strings

/-!
# Values as they are written

A value that is written, over several lines or without any blanks, is read back as itself, if its
doubles are and if no more containers are nested in it than the reader has room for. The text alone
is read at any depth; only the tree that it stands for is refused. The two ways of writing differ
only in where they put blanks, so they are one layout with different gaps.
-/

namespace TypedDocs

/-- The numeral that a number is written with. -/
def Number.numeral (n : Number) : Decimal × Bool :=
  ((Node.numeral? n.text.toList).map Prod.fst).getD (⟨false, [], [], 0⟩, false)

theorem Number.numeral_eq {n : Number} (h : n.readsBack = true) :
    Node.numeral? n.text.toList = some (n.numeral, []) ∧
      Node.number? n.numeral.1 n.numeral.2 = some n := by
  obtain ⟨numeral, htext, hnumber⟩ := readsBack_iff.1 h
  have heq : n.numeral = numeral := by rw [Number.numeral, htext]; rfl
  rw [heq]
  exact ⟨htext, hnumber⟩

namespace Value

mutual
/-- The tree of the text of a value. -/
def toNode : Value → Node
  | .null => .null
  | .bool b => .bool b
  | .number n => .number n.numeral.1 n.numeral.2
  | .string s => .string (some s)
  | .array xs => .array (itemNodes xs)
  | .object fs => .object (memberNodes fs)
def itemNodes : List Value → List Node
  | [] => []
  | x :: xs => toNode x :: itemNodes xs
def memberNodes : List (String × Value) → List (Option String × Node)
  | [] => []
  | (k, x) :: fs => (some k, toNode x) :: memberNodes fs
end

mutual
/-- All doubles at any depth are read back from their text. -/
def doublesReadBack : Value → Bool
  | .number (.double x) => (Number.double x).readsBack
  | .array xs => itemsReadBack xs
  | .object fs => membersReadBack fs
  | _ => true
def itemsReadBack : List Value → Bool
  | [] => true
  | x :: xs => doublesReadBack x && itemsReadBack xs
def membersReadBack : List (String × Value) → Bool
  | [] => true
  | (_, x) :: fs => doublesReadBack x && membersReadBack fs
end

theorem readsBack_number {n : Number} (h : (Value.number n).doublesReadBack = true) :
    n.readsBack = true := by
  cases n with
  | integer n hn => exact Number.integer_readsBack n hn
  | double x =>
    rw [doublesReadBack] at h
    exact h

end Value

namespace Node

section Blanks

attribute [local simp] value? items? members?

variable {cs gap rest : List Char} {fuel : Nat}

theorem skipBlanks_cons {c : Char} (h : isBlank c = false) : skipBlanks (c :: cs) = c :: cs := by
  simp [skipBlanks, h]

theorem skipBlanks_gap (h : ∀ c ∈ gap, isBlank c = true) :
    skipBlanks (gap ++ cs) = skipBlanks cs := List.dropWhile_append_of_pos h

theorem value?_gap (h : ∀ c ∈ gap, isBlank c = true) : value? fuel (gap ++ cs) = value? fuel cs := by
  cases fuel with
  | zero => rfl
  | succ fuel => simp [skipBlanks_gap h]

theorem items?_gap (h : ∀ c ∈ gap, isBlank c = true) : items? fuel (gap ++ cs) = items? fuel cs := by
  cases fuel with
  | zero => rfl
  | succ fuel => simp [value?_gap h]

theorem members?_gap (h : ∀ c ∈ gap, isBlank c = true) :
    members? fuel (gap ++ cs) = members? fuel cs := by
  cases fuel with
  | zero => rfl
  | succ fuel => simp [skipBlanks_gap h]

theorem endsNumeral_gap (h : ∀ c ∈ gap, isBlank c = true) (hrest : EndsNumeral rest) :
    EndsNumeral (gap ++ rest) := by
  cases gap with
  | nil => exact hrest
  | cons c gap =>
    have hblank := h c List.mem_cons_self
    simp only [isBlank, Bool.or_eq_true, decide_eq_true_eq] at hblank
    refine .cons ?_
    rcases hblank with ((rfl | rfl) | rfl) | rfl <;> decide

end Blanks

section Steps

variable {cs gap rest : List Char} {fuel : Nat} {c : Char}

theorem value?_number {numeral : Decimal × Bool} (h : numeral? (c :: cs) = some (numeral, rest)) :
    value? (fuel + 1) (c :: cs) = some (.number numeral.1 numeral.2, rest) := by
  have hhead := head_of_numeral? h
  have hne : ∀ d, isDecimalDigit d = false → d ≠ '-' → c ≠ d := by
    rintro d hdigit hminus rfl
    rcases hhead with hc | hc
    · exact hminus hc
    · rw [hdigit] at hc
      cases hc
  have hblank : isBlank c = false := by
    simp [isBlank, hne ' ' (by decide) (by decide), hne '\n' (by decide) (by decide),
      hne '\t' (by decide) (by decide), hne '\r' (by decide) (by decide)]
  rw [value?, skipBlanks_cons hblank]
  split
  · rename_i heq
    cases heq
  · rename_i heq
    exact absurd (List.cons.inj heq).1 (hne 'n' (by decide) (by decide))
  · rename_i heq
    exact absurd (List.cons.inj heq).1 (hne 't' (by decide) (by decide))
  · rename_i heq
    exact absurd (List.cons.inj heq).1 (hne 'f' (by decide) (by decide))
  · rename_i heq
    exact absurd (List.cons.inj heq).1 (hne '"' (by decide) (by decide))
  · rename_i heq
    exact absurd (List.cons.inj heq).1 (hne '[' (by decide) (by decide))
  · rename_i heq
    exact absurd (List.cons.inj heq).1 (hne '{' (by decide) (by decide))
  · rw [h]
    rfl

theorem value?_string (s : String) :
    value? (fuel + 1) ((jsonString s).toList ++ rest) = some (.string (some s), rest) := by
  rw [toList_jsonString, List.cons_append, List.append_assoc, value?,
    skipBlanks_cons (by decide)]
  simp only [List.singleton_append, pieces?_written, Option.bind_eq_bind, Option.bind_some,
    stringText?_written]

/-- A container that is not empty is read part by part. -/
theorem value?_array (hgap : ∀ c ∈ gap, isBlank c = true) (hblank : isBlank c = false)
    (hclose : c ≠ ']') : value? (fuel + 1) ('[' :: (gap ++ c :: cs)) =
      (items? fuel (c :: cs)).map fun p => (.array p.1, p.2) := by
  rw [value?, skipBlanks_cons (by decide)]
  simp only [skipBlanks_gap hgap, skipBlanks_cons hblank]
  split
  · rename_i heq
    exact absurd (List.cons.inj heq).1 hclose
  · cases items? fuel (c :: cs) <;> rfl

theorem value?_object (hgap : ∀ c ∈ gap, isBlank c = true) (hblank : isBlank c = false)
    (hclose : c ≠ '}') : value? (fuel + 1) ('{' :: (gap ++ c :: cs)) =
      (members? fuel (c :: cs)).map fun p => (.object p.1, p.2) := by
  rw [value?, skipBlanks_cons (by decide)]
  simp only [skipBlanks_gap hgap, skipBlanks_cons hblank]
  split
  · rename_i heq
    exact absurd (List.cons.inj heq).1 hclose
  · cases members? fuel (c :: cs) <;> rfl

theorem items?_last {node : Node} (hgap : ∀ c ∈ gap, isBlank c = true)
    (h : value? fuel cs = some (node, gap ++ ']' :: rest)) :
    items? (fuel + 1) cs = some ([node], rest) := by
  rw [items?, h]
  simp only [Option.bind_eq_bind, Option.bind_some, skipBlanks_gap hgap]
  rw [skipBlanks_cons (by decide)]
  rfl

theorem items?_more {node : Node} {nodes : List Node} {next : List Char}
    (h : value? fuel cs = some (node, ',' :: next)) (hnext : items? fuel next = some (nodes, rest)) :
    items? (fuel + 1) cs = some (node :: nodes, rest) := by
  rw [items?, h]
  simp only [Option.bind_eq_bind, Option.bind_some]
  rw [skipBlanks_cons (by decide)]
  simp only [hnext, Option.bind_some]

theorem members?_last {key : String} {node : Node} (hgap : ∀ c ∈ gap, isBlank c = true)
    (h : value? fuel cs = some (node, gap ++ '}' :: rest)) :
    members? (fuel + 1) ((jsonString key).toList ++ ':' :: cs) =
      some ([(some key, node)], rest) := by
  rw [members?, toList_jsonString, List.cons_append, List.append_assoc,
    skipBlanks_cons (by decide)]
  simp only [List.singleton_append, pieces?_written, Option.bind_eq_bind, Option.bind_some]
  rw [skipBlanks_cons (by decide)]
  simp only [h, Option.bind_some, skipBlanks_gap hgap, stringText?_written]
  rw [skipBlanks_cons (by decide)]
  rfl

theorem members?_more {key : String} {node : Node} {nodes : List (Option String × Node)}
    {next : List Char} (h : value? fuel cs = some (node, ',' :: next))
    (hnext : members? fuel next = some (nodes, rest)) :
    members? (fuel + 1) ((jsonString key).toList ++ ':' :: cs) =
      some ((some key, node) :: nodes, rest) := by
  rw [members?, toList_jsonString, List.cons_append, List.append_assoc,
    skipBlanks_cons (by decide)]
  simp only [List.singleton_append, pieces?_written, Option.bind_eq_bind, Option.bind_some]
  rw [skipBlanks_cons (by decide)]
  simp only [h, Option.bind_some, stringText?_written]
  rw [skipBlanks_cons (by decide)]
  simp only [hnext, Option.bind_some]

end Steps

section Layouts

/-- Where a value has blanks: before each part of a container and before its end, by depth, and
behind a colon. -/
structure Layout where
  gap : Nat → List Char
  colon : List Char
  gap_blank : ∀ depth, ∀ c ∈ gap depth, isBlank c = true
  colon_blank : ∀ c ∈ colon, isBlank c = true

/-- A line break and the blanks before the next part. -/
def newline (depth : Nat) : List Char := '\n' :: List.replicate (2 * depth) ' '

namespace Layout

/-- One part a line. -/
def lines : Layout where
  gap := newline
  colon := [' ']
  gap_blank depth c hc := by
    rcases List.mem_cons.1 hc with rfl | hc
    · decide
    · rw [List.eq_of_mem_replicate hc]
      decide
  colon_blank := List.all_eq_true.1 (by decide)

/-- No blanks at all. -/
def dense : Layout where
  gap _ := []
  colon := []
  gap_blank _ _ hc := by cases hc
  colon_blank _ hc := by cases hc

variable (l : Layout)

/-- Parts with a comma and a gap between them. -/
def joined (depth : Nat) (parts : List (List Char)) : List Char :=
  List.intercalate (',' :: l.gap depth) parts

/-- What stands between the brackets of a container. -/
def body (depth : Nat) : List (List Char) → List Char
  | [] => []
  | p :: ps => l.gap (depth + 1) ++ (l.joined (depth + 1) (p :: ps) ++ l.gap depth)

mutual
/-- The characters of a value that stands `depth` levels deep. -/
def write (depth : Nat) : Value → List Char
  | .null => "null".toList
  | .bool b => if b then "true".toList else "false".toList
  | .number n => n.text.toList
  | .string s => (jsonString s).toList
  | .array xs => '[' :: (l.body depth (writeItems (depth + 1) xs) ++ [']'])
  | .object fs => '{' :: (l.body depth (writeFields (depth + 1) fs) ++ ['}'])
def writeItems (depth : Nat) : List Value → List (List Char)
  | [] => []
  | x :: xs => write depth x :: writeItems depth xs
def writeFields (depth : Nat) : List (String × Value) → List (List Char)
  | [] => []
  | (k, x) :: fs =>
    ((jsonString k).toList ++ ':' :: (l.colon ++ write depth x)) :: writeFields depth fs
end

variable {l} {p q : List Char} {ps : List (List Char)} {depth : Nat}

theorem joined_cons_cons : l.joined depth (p :: q :: ps) =
    p ++ ',' :: (l.gap depth ++ l.joined depth (q :: ps)) := by
  simp [joined, List.intercalate_cons_cons]

theorem joined_singleton : l.joined depth [p] = p := by simp [joined]

/-- What is joined begins as its first part does. -/
theorem head_joined (l : Layout) (depth : Nat) (ps : List (List Char)) {c : Char} {cs : List Char}
    (h : p = c :: cs) : ∃ cs', l.joined depth (p :: ps) = c :: cs' := by
  cases ps with
  | nil => exact ⟨cs, by rw [joined_singleton, h]⟩
  | cons q qs => exact ⟨_, by rw [joined_cons_cons, h]; rfl⟩

theorem toList_bracketed {opening closing : String} (parts : List String) :
    (Value.bracketed opening closing depth parts).toList =
      opening.toList ++ (lines.body depth (parts.map String.toList) ++ closing.toList) := by
  cases parts with
  | nil => simp [Value.bracketed, body]
  | cons p ps =>
    simp only [Value.bracketed, List.isEmpty_cons, Bool.false_eq_true, if_false,
      String.toList_append, String.toList_intercalate, String.toList_ofList, List.map_cons, body,
      joined, lines, newline]
    have hbreak : ("\n").toList = ['\n'] := by rfl
    have hcomma : (",\n").toList = [',', '\n'] := by rfl
    rw [hbreak, hcomma]
    simp

mutual
/-- A value over several lines. -/
theorem toList_prettyAt : ∀ (v : Value) (depth : Nat),
    (v.prettyAt depth).toList = lines.write depth v
  | .null, _ => by rw [Value.prettyAt, write]
  | .bool b, _ => by cases b <;> (rw [Value.prettyAt, write]; rfl)
  | .number _, _ => by rw [Value.prettyAt, write]
  | .string _, _ => by rw [Value.prettyAt, write]
  | .array xs, depth => by
    rw [Value.prettyAt, write, toList_bracketed, toList_prettyItems]
    rfl
  | .object fs, depth => by
    rw [Value.prettyAt, write, toList_bracketed, toList_prettyFields]
    rfl
theorem toList_prettyItems : ∀ (xs : List Value) (depth : Nat),
    (Value.prettyItems depth xs).map String.toList = lines.writeItems depth xs
  | [], _ => by rw [Value.prettyItems, writeItems, List.map_nil]
  | x :: xs, depth => by
    rw [Value.prettyItems, writeItems, List.map_cons, toList_prettyAt, toList_prettyItems]
theorem toList_prettyFields : ∀ (fs : List (String × Value)) (depth : Nat),
    (Value.prettyFields depth fs).map String.toList = lines.writeFields depth fs
  | [], _ => by rw [Value.prettyFields, writeFields, List.map_nil]
  | (k, x) :: fs, depth => by
    have hcolon : (": ").toList = [':', ' '] := by rfl
    rw [Value.prettyFields, writeFields, List.map_cons, String.toList_append,
      String.toList_append, toList_prettyAt, toList_prettyFields, hcolon, List.append_assoc]
    rfl
end

theorem toList_brackets (opening closing : String) (parts : List String) (depth : Nat) :
    (opening ++ String.intercalate "," parts ++ closing).toList =
      opening.toList ++ (dense.body depth (parts.map String.toList) ++ closing.toList) := by
  have hcomma : (",").toList = [','] := by rfl
  rw [String.toList_append, String.toList_append, String.toList_intercalate, hcomma,
    List.append_assoc]
  cases parts with
  | nil => simp [body]
  | cons p ps => simp [body, joined, dense]

mutual
/-- A value without blanks. -/
theorem toList_compact : ∀ (v : Value) (depth : Nat), v.compact.toList = dense.write depth v
  | .null, _ => by rw [Value.compact, write]
  | .bool b, _ => by cases b <;> (rw [Value.compact, write]; rfl)
  | .number _, _ => by rw [Value.compact, write]
  | .string _, _ => by rw [Value.compact, write]
  | .array xs, depth => by
    rw [Value.compact, write, toList_brackets _ _ _ depth, toList_compactItems xs (depth + 1)]
    rfl
  | .object fs, depth => by
    rw [Value.compact, write, toList_brackets _ _ _ depth, toList_compactFields fs (depth + 1)]
    rfl
theorem toList_compactItems : ∀ (xs : List Value) (depth : Nat),
    (Value.compactItems xs).map String.toList = dense.writeItems depth xs
  | [], _ => by rw [Value.compactItems, writeItems, List.map_nil]
  | x :: xs, depth => by
    rw [Value.compactItems, writeItems, List.map_cons, toList_compact x depth,
      toList_compactItems xs depth]
theorem toList_compactFields : ∀ (fs : List (String × Value)) (depth : Nat),
    (Value.compactFields fs).map String.toList = dense.writeFields depth fs
  | [], _ => by rw [Value.compactFields, writeFields, List.map_nil]
  | (k, x) :: fs, depth => by
    have hcolon : (":").toList = [':'] := by rfl
    rw [Value.compactFields, writeFields, List.map_cons, String.toList_append,
      String.toList_append, toList_compact x depth, toList_compactFields fs depth, hcolon,
      List.append_assoc]
    rfl
end

end Layout

end Layouts

section Written

variable {l : Layout} {depth fuel : Nat} {rest : List Char}

theorem head_jsonString (s : String) : ∃ cs, (jsonString s).toList = '"' :: cs :=
  ⟨_, toList_jsonString s⟩

/-- A value is written with a character at its head that is no blank and no closing bracket. -/
theorem head_write {v : Value} (h : v.doublesReadBack = true) (l : Layout) (depth : Nat) :
    ∃ c cs, l.write depth v = c :: cs ∧ isBlank c = false ∧ c ≠ ']' := by
  cases v with
  | null => exact ⟨'n', ['u', 'l', 'l'], by rw [Layout.write]; rfl, by decide, by decide⟩
  | bool b =>
    cases b with
    | true => exact ⟨'t', ['r', 'u', 'e'], by rw [Layout.write]; rfl, by decide, by decide⟩
    | false =>
      exact ⟨'f', ['a', 'l', 's', 'e'], by rw [Layout.write]; rfl, by decide, by decide⟩
  | number n =>
    have htext := (Number.numeral_eq (Value.readsBack_number h)).1
    rw [Layout.write]
    cases hcs : n.text.toList with
    | nil =>
      rw [hcs] at htext
      cases htext
    | cons c cs =>
      rw [hcs] at htext
      refine ⟨c, cs, rfl, ?_⟩
      rcases head_of_numeral? htext with rfl | hdigit
      · decide
      · constructor
        · cases hblank : isBlank c with
          | false => rfl
          | true =>
            simp only [isBlank, Bool.or_eq_true, decide_eq_true_eq] at hblank
            rcases hblank with ((rfl | rfl) | rfl) | rfl <;> cases hdigit
        · rintro rfl
          cases hdigit
  | string s =>
    obtain ⟨cs, hcs⟩ := head_jsonString s
    exact ⟨'"', cs, by rw [Layout.write, hcs], by decide, by decide⟩
  | array xs => exact ⟨'[', _, by rw [Layout.write], by decide, by decide⟩
  | object fs => exact ⟨'{', _, by rw [Layout.write], by decide, by decide⟩

/-- A number, a string or a keyword needs no fuel for parts. -/
theorem value?_flat {v : Value} (hdoubles : v.doublesReadBack = true) (hrest : EndsNumeral rest)
    (harray : v.isArray = false) (hobject : v.isObject = false) :
    value? (fuel + 1) (l.write depth v ++ rest) = some (v.toNode, rest) := by
  cases v with
  | null =>
    rw [Layout.write, Value.toNode]
    rfl
  | bool b =>
    rw [Layout.write, Value.toNode]
    cases b <;> rfl
  | number n =>
    have htext := (Number.numeral_eq (Value.readsBack_number hdoubles)).1
    have hread := numeral?_append hrest htext
    obtain ⟨c, cs, hcs, -⟩ := head_write hdoubles l depth
    rw [Layout.write] at hcs ⊢
    rw [hcs, List.nil_append, List.cons_append] at hread
    rw [hcs, List.cons_append, value?_number hread, Value.toNode]
  | string s =>
    rw [Layout.write, Value.toNode]
    exact value?_string s
  | array xs => cases harray
  | object fs => cases hobject

theorem value?_items {x : Value} {xs : List Value} (hdoubles : x.doublesReadBack = true)
    (h : items? fuel (l.joined (depth + 1) (l.writeItems (depth + 1) (x :: xs)) ++
      (l.gap depth ++ ']' :: rest)) = some (Value.itemNodes (x :: xs), rest)) :
    value? (fuel + 1) (l.write depth (.array (x :: xs)) ++ rest) =
      some ((Value.array (x :: xs)).toNode, rest) := by
  obtain ⟨c, cs, hcs, hblank, hclose⟩ := head_write hdoubles l (depth + 1)
  obtain ⟨cs', hjoined⟩ := l.head_joined (depth + 1) (l.writeItems (depth + 1) xs) hcs
  rw [Layout.writeItems] at h
  rw [Layout.write, Layout.writeItems, Layout.body]
  simp only [hjoined, List.cons_append, List.append_assoc, List.nil_append] at h ⊢
  rw [value?_array (l.gap_blank _) hblank hclose, h, Value.toNode]
  rfl

theorem value?_members {k : String} {x : Value} {fs : Fields}
    (h : members? fuel (l.joined (depth + 1) (l.writeFields (depth + 1) ((k, x) :: fs)) ++
      (l.gap depth ++ '}' :: rest)) = some (Value.memberNodes ((k, x) :: fs), rest)) :
    value? (fuel + 1) (l.write depth (.object ((k, x) :: fs)) ++ rest) =
      some ((Value.object ((k, x) :: fs)).toNode, rest) := by
  obtain ⟨cs, hcs⟩ := head_jsonString k
  have hfield : (jsonString k).toList ++ ':' :: (l.colon ++ l.write (depth + 1) x) =
      '"' :: (cs ++ ':' :: (l.colon ++ l.write (depth + 1) x)) := by
    rw [hcs]
    rfl
  obtain ⟨cs', hjoined⟩ := l.head_joined (depth + 1) (l.writeFields (depth + 1) fs) hfield
  rw [Layout.writeFields] at h
  rw [Layout.write, Layout.writeFields, Layout.body]
  simp only [hjoined, List.cons_append, List.append_assoc, List.nil_append] at h ⊢
  rw [value?_object (l.gap_blank _) (by decide) (by decide), h, Value.toNode]
  rfl

theorem length_write_pos {v : Value} (h : v.doublesReadBack = true) (l : Layout) (depth : Nat) :
    0 < (l.write depth v).length := by
  obtain ⟨c, cs, hcs, -⟩ := head_write h l depth
  rw [hcs, List.length_cons]
  omega

mutual
/-- The text of a value is read as its tree. There is fuel for it if there is for its length. -/
theorem value?_write : ∀ (v : Value) (depth fuel : Nat) (rest : List Char),
    v.doublesReadBack = true → EndsNumeral rest → (l.write depth v).length ≤ fuel + 1 →
      value? (fuel + 1) (l.write depth v ++ rest) = some (v.toNode, rest)
  | .null => fun _ _ _ hdoubles hrest _ => value?_flat hdoubles hrest rfl rfl
  | .bool _ => fun _ _ _ hdoubles hrest _ => value?_flat hdoubles hrest rfl rfl
  | .number _ => fun _ _ _ hdoubles hrest _ => value?_flat hdoubles hrest rfl rfl
  | .string _ => fun _ _ _ hdoubles hrest _ => value?_flat hdoubles hrest rfl rfl
  | .array [] => by
    intro depth fuel rest _ _ _
    rw [Layout.write, Layout.writeItems, Value.toNode, Value.itemNodes]
    rfl
  | .array (x :: xs) => by
    intro depth fuel rest hdoubles _ hfuel
    rw [Value.doublesReadBack] at hdoubles
    rw [Layout.write, Layout.writeItems, Layout.body, ← Layout.writeItems] at hfuel
    simp only [List.length_cons, List.length_append] at hfuel
    have hfirst := hdoubles
    rw [Value.itemsReadBack, Bool.and_eq_true] at hfirst
    exact value?_items hfirst.1 (items?_joined (x :: xs) _ _ _ _ (by simp) hdoubles (by omega))
  | .object [] => by
    intro depth fuel rest _ _ _
    rw [Layout.write, Layout.writeFields, Value.toNode, Value.memberNodes]
    rfl
  | .object ((k, x) :: fs) => by
    intro depth fuel rest hdoubles _ hfuel
    rw [Value.doublesReadBack] at hdoubles
    rw [Layout.write, Layout.writeFields, Layout.body, ← Layout.writeFields] at hfuel
    simp only [List.length_cons, List.length_append] at hfuel
    exact value?_members (members?_joined ((k, x) :: fs) _ _ _ _ (by simp) hdoubles (by omega))
/-- The parts of an array are read up to its closing bracket. -/
theorem items?_joined : ∀ (xs : List Value) (outer depth fuel : Nat) (rest : List Char),
    xs ≠ [] → Value.itemsReadBack xs = true →
      (l.joined depth (l.writeItems depth xs)).length < fuel →
        items? fuel (l.joined depth (l.writeItems depth xs) ++ (l.gap outer ++ ']' :: rest)) =
          some (Value.itemNodes xs, rest)
  | [] => fun _ _ _ _ hne => absurd rfl hne
  | x :: xs => by
    intro outer depth fuel rest _ hdoubles hfuel
    have hvalue := value?_write x depth
    have hitems := items?_joined xs outer depth
    rw [Value.itemsReadBack, Bool.and_eq_true] at hdoubles
    cases xs with
    | nil =>
      simp only [Layout.writeItems, Layout.joined_singleton] at hfuel ⊢
      have hlength := length_write_pos hdoubles.1 l depth
      obtain ⟨fuel, rfl⟩ : ∃ n, fuel = n + 2 := ⟨fuel - 2, by omega⟩
      have hread := hvalue fuel (l.gap outer ++ ']' :: rest) hdoubles.1
        (endsNumeral_gap (l.gap_blank _) (.cons (by decide))) (by omega)
      rw [items?_last (l.gap_blank _) hread, Value.itemNodes, Value.itemNodes]
    | cons y ys =>
      rw [Layout.writeItems, Layout.writeItems, Layout.joined_cons_cons,
        ← Layout.writeItems] at hfuel ⊢
      simp only [List.length_append, List.length_cons] at hfuel
      obtain ⟨fuel, rfl⟩ : ∃ n, fuel = n + 2 := ⟨fuel - 2, by omega⟩
      have hread := hvalue fuel (',' :: (l.gap depth ++
        (l.joined depth (l.writeItems depth (y :: ys)) ++ (l.gap outer ++ ']' :: rest))))
        hdoubles.1 (.cons (by decide)) (by omega)
      have hrest := hitems (fuel + 1) rest (by simp) hdoubles.2 (by omega)
      rw [← items?_gap (l.gap_blank depth)] at hrest
      simp only [List.append_assoc, List.cons_append]
      have hnodes : Value.itemNodes (x :: y :: ys) = x.toNode :: Value.itemNodes (y :: ys) := by
        rw [Value.itemNodes]
      rw [items?_more hread hrest, hnodes]
/-- The parts of an object are read up to its closing brace. -/
theorem members?_joined : ∀ (fs : List (String × Value)) (outer depth fuel : Nat)
    (rest : List Char), fs ≠ [] → Value.membersReadBack fs = true →
      (l.joined depth (l.writeFields depth fs)).length < fuel →
        members? fuel
            (l.joined depth (l.writeFields depth fs) ++ (l.gap outer ++ '}' :: rest)) =
          some (Value.memberNodes fs, rest)
  | [] => fun _ _ _ _ hne => absurd rfl hne
  | (k, x) :: fs => by
    intro outer depth fuel rest _ hdoubles hfuel
    have hvalue := value?_write x depth
    have hmembers := members?_joined fs outer depth
    rw [Value.membersReadBack, Bool.and_eq_true] at hdoubles
    cases fs with
    | nil =>
      simp only [Layout.writeFields, Layout.joined_singleton, List.length_append,
        List.length_cons] at hfuel ⊢
      obtain ⟨cs, hcs⟩ := head_jsonString k
      rw [hcs, List.length_cons] at hfuel
      obtain ⟨fuel, rfl⟩ : ∃ n, fuel = n + 2 := ⟨fuel - 2, by omega⟩
      have hread := hvalue fuel (l.gap outer ++ '}' :: rest) hdoubles.1
        (endsNumeral_gap (l.gap_blank _) (.cons (by decide))) (by omega)
      rw [← value?_gap l.colon_blank] at hread
      simp only [List.append_assoc, List.cons_append]
      rw [members?_last (l.gap_blank _) hread, Value.memberNodes, Value.memberNodes]
    | cons g gs =>
      obtain ⟨j, y⟩ := g
      rw [Layout.writeFields, Layout.writeFields, Layout.joined_cons_cons,
        ← Layout.writeFields] at hfuel ⊢
      simp only [List.length_append, List.length_cons] at hfuel
      obtain ⟨fuel, rfl⟩ : ∃ n, fuel = n + 2 := ⟨fuel - 2, by omega⟩
      have hread := hvalue fuel (',' :: (l.gap depth ++
        (l.joined depth (l.writeFields depth ((j, y) :: gs)) ++ (l.gap outer ++ '}' :: rest))))
        hdoubles.1 (.cons (by decide)) (by omega)
      have hrest := hmembers (fuel + 1) rest (by simp) hdoubles.2 (by omega)
      rw [← members?_gap (l.gap_blank depth)] at hrest
      rw [← value?_gap l.colon_blank] at hread
      simp only [List.append_assoc, List.cons_append]
      have hnodes : Value.memberNodes ((k, x) :: (j, y) :: gs) =
          (some k, x.toNode) :: Value.memberNodes ((j, y) :: gs) := by
        rw [Value.memberNodes]
      rw [members?_more hread hrest, hnodes]
end

/-- The text of a value is read as a whole, however it is laid out. -/
theorem parse?_write {v : Value} (h : v.doublesReadBack = true) {text : String}
    (htext : text.toList = l.write 0 v) : parse? text = some v.toNode := by
  have hread := value?_write (l := l) v 0 (2 * text.toList.length + 1) [] h .nil (by rw [htext]; omega)
  rw [List.append_nil, ← htext] at hread
  rw [parse?]
  simp only [show value? (2 * text.toList.length + 2) text.toList = some (v.toNode, []) from hread]
  rfl

theorem parse?_pretty {v : Value} (h : v.doublesReadBack = true) : parse? v.pretty = some v.toNode :=
  parse?_write h (Layout.toList_prettyAt v 0)

theorem parse?_compact {v : Value} (h : v.doublesReadBack = true) :
    parse? v.compact = some v.toNode :=
  parse?_write h (Layout.toList_compact v 0)

end Written

section Trees

mutual
/-- The tree of a value stands for the value, where there is room for its containers. -/
theorem toValue?_toNode : ∀ (v : Value) (room : Nat), v.doublesReadBack = true →
    v.hasDistinctNames = true →
      v.toNode.toValue? room = if v.depth ≤ room then some v else none
  | .null => by
    intro room _ _
    rw [Value.toNode, toValue?, Value.depth, if_pos (Nat.zero_le room)] <;> simp
  | .bool b => by
    intro room _ _
    rw [Value.toNode, toValue?, Value.depth, if_pos (Nat.zero_le room)] <;> simp
  | .number n => by
    intro room hdoubles _
    have hnumber := (Number.numeral_eq (Value.readsBack_number hdoubles)).2
    rw [Value.toNode, toValue?, hnumber, Value.depth, if_pos (Nat.zero_le room)] <;> simp
  | .string s => by
    intro room _ _
    rw [Value.toNode, toValue?, Value.depth, if_pos (Nat.zero_le room)] <;> simp
  | .array xs => by
    intro room hdoubles hdistinct
    rw [Value.doublesReadBack] at hdoubles
    rw [Value.hasDistinctNames, Value.everyObject] at hdistinct
    rw [Value.toNode, Value.depth]
    cases room with
    | zero =>
      rw [toValue?, if_neg (by omega)]
    | succ room =>
      rw [toValue?, itemValues?_itemNodes xs room hdoubles hdistinct]
      by_cases hroom : Value.itemsDepth xs ≤ room
      · rw [if_pos hroom, if_pos (by omega)]
        rfl
      · rw [if_neg hroom, if_neg (by omega)]
        rfl
  | .object fs => by
    intro room hdoubles hdistinct
    rw [Value.doublesReadBack] at hdoubles
    rw [Value.hasDistinctNames, Value.everyObject, Bool.and_eq_true] at hdistinct
    rw [Value.toNode, Value.depth]
    cases room with
    | zero =>
      rw [toValue?, if_neg (by omega)]
    | succ room =>
      rw [toValue?, memberValues?_memberNodes fs room hdoubles hdistinct.2]
      by_cases hroom : Value.membersDepth fs ≤ room
      · have hnames : (fs.map Prod.fst).Nodup := by simpa [Fields.areDistinct] using hdistinct.1
        rw [if_pos hroom, if_pos (by omega), Option.map_some, Fields.ofMembers_of_nodup hnames]
      · rw [if_neg hroom, if_neg (by omega)]
        rfl
theorem itemValues?_itemNodes : ∀ (xs : List Value) (room : Nat), Value.itemsReadBack xs = true →
    Value.everyObjectOfItems Fields.areDistinct xs = true →
      itemValues? room (Value.itemNodes xs) = if Value.itemsDepth xs ≤ room then some xs else none
  | [] => by
    intro room _ _
    rw [Value.itemNodes, itemValues?, Value.itemsDepth, if_pos (Nat.zero_le room)]
  | x :: xs => by
    intro room hdoubles hdistinct
    rw [Value.itemsReadBack, Bool.and_eq_true] at hdoubles
    rw [Value.everyObjectOfItems, Bool.and_eq_true] at hdistinct
    rw [Value.itemNodes, itemValues?, toValue?_toNode x room hdoubles.1 hdistinct.1,
      itemValues?_itemNodes xs room hdoubles.2 hdistinct.2, Value.itemsDepth]
    by_cases hx : x.depth ≤ room
    · by_cases hxs : Value.itemsDepth xs ≤ room
      · rw [if_pos hx, if_pos hxs, if_pos (by omega)]
        rfl
      · rw [if_pos hx, if_neg hxs, if_neg (by omega)]
        rfl
    · have hmax : ¬ max x.depth (Value.itemsDepth xs) ≤ room := by omega
      rw [if_neg hx, if_neg hmax]
      rfl
theorem memberValues?_memberNodes : ∀ (fs : List (String × Value)) (room : Nat),
    Value.membersReadBack fs = true → Value.everyObjectOfFields Fields.areDistinct fs = true →
      memberValues? room (Value.memberNodes fs) =
        if Value.membersDepth fs ≤ room then some fs else none
  | [] => by
    intro room _ _
    rw [Value.memberNodes, memberValues?, Value.membersDepth, if_pos (Nat.zero_le room)]
  | (k, x) :: fs => by
    intro room hdoubles hdistinct
    rw [Value.membersReadBack, Bool.and_eq_true] at hdoubles
    rw [Value.everyObjectOfFields, Bool.and_eq_true] at hdistinct
    rw [Value.memberNodes, memberValues?, toValue?_toNode x room hdoubles.1 hdistinct.1,
      memberValues?_memberNodes fs room hdoubles.2 hdistinct.2, Value.membersDepth]
    by_cases hx : x.depth ≤ room
    · by_cases hfs : Value.membersDepth fs ≤ room
      · rw [if_pos hx, if_pos hfs, if_pos (by omega)]
        rfl
      · rw [if_pos hx, if_neg hfs, if_neg (by omega)]
        rfl
    · have hmax : ¬ max x.depth (Value.membersDepth fs) ≤ room := by omega
      rw [if_neg hx, if_neg hmax]
      rfl
end

end Trees

end Node

/-- A value that is written and read again comes back, unless it is nested too deep. -/
theorem Value.ofJson?_pretty {v : Value} (hdoubles : v.doublesReadBack = true)
    (hdistinct : v.hasDistinctNames = true) :
    ofJson? v.pretty = if v.depth ≤ maxNesting then some v else none := by
  rw [ofJson?, Node.parse?_pretty hdoubles]
  exact Node.toValue?_toNode v maxNesting hdoubles hdistinct

end TypedDocs
