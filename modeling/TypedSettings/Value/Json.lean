import TypedSettings.Table
import TypedSettings.Value.Printer

/-!
# Values as JSON

A value becomes a JSON document: lists, tuples and sets are arrays, maps are objects whose keys are
the plain texts of the keys, decimals and custom values are texts. A document is written on one
line or indented, and `sorted` gives every object its keys once and in order.
-/

namespace TypedSettings

open Text Number

variable [Payloads]

/-- A JSON document; the members of an object keep their order. -/
inductive Json where
  | null
  | bool (b : Bool)
  | int (n : Int)
  | float (x : Float)
  | str (s : String)
  | array (items : List Json)
  | object (members : List (String × Json))

namespace Json

/-- Floats in JSON: positional from `0.00001` up to below `10 ^ 16`, a plus sign in positive
exponents, and a tie between two shortest decimals goes to the even one. -/
def floatLayout : FloatLayout := ⟨-5, 16, true, .toEven⟩

/-! ## Texts -/

def escapeChar (c : Char) : List Char :=
  if c = '\x22' then ['\\', '\x22']
  else if c = '\\' then ['\\', '\\']
  else if c.toNat = 0x8 then ['\\', 'b']
  else if c.toNat = 0xC then ['\\', 'f']
  else if c = '\n' then ['\\', 'n']
  else if c = '\r' then ['\\', 'r']
  else if c = '\t' then ['\\', 't']
  else if c.toNat < 0x20 then
    let ds := Nat.toDigits 16 c.toNat
    '\\' :: 'u' :: (List.replicate (4 - ds.length) '0' ++ ds)
  else [c]

def quoted (s : String) : List Char := '\x22' :: (s.toList.flatMap escapeChar ++ ['\x22'])

/-! ## One line -/

mutual

/-- The document on one line. -/
def compactChars : Json → List Char
  | null => ['n', 'u', 'l', 'l']
  | bool true => ['t', 'r', 'u', 'e']
  | bool false => ['f', 'a', 'l', 's', 'e']
  | int n => ofInt n
  | float x => floatLayout.text x
  | str s => quoted s
  | array items => '[' :: ([','].intercalate (compactEach items) ++ [']'])
  | object members => '\x7b' :: ([','].intercalate (compactMembers members) ++ ['\x7d'])
termination_by structural j => j

def compactEach : List Json → List (List Char)
  | [] => []
  | j :: js => compactChars j :: compactEach js
termination_by structural js => js

def compactMembers : List (String × Json) → List (List Char)
  | [] => []
  | (k, j) :: ms => (quoted k ++ ':' :: compactChars j) :: compactMembers ms
termination_by structural ms => ms

end

def compact (j : Json) : String := String.ofList j.compactChars

/-! ## Indented -/

/-- A line break and two blanks for each level. -/
def newLine (level : Nat) : List Char := '\n' :: List.replicate (2 * level) ' '

/-- Brackets around items, each on a line of its own one level deeper; nothing between them if
there are no items. -/
def block (openBracket closeBracket : Char) (level : Nat) (items : List (List Char)) : List Char :=
  if items.isEmpty then [openBracket, closeBracket]
  else
    openBracket :: ([','].intercalate (items.map (newLine (level + 1) ++ ·)) ++
      newLine level ++ [closeBracket])

mutual

/-- The document with its members and items on lines of their own. -/
def prettyChars (level : Nat) : Json → List Char
  | null => ['n', 'u', 'l', 'l']
  | bool true => ['t', 'r', 'u', 'e']
  | bool false => ['f', 'a', 'l', 's', 'e']
  | int n => ofInt n
  | float x => floatLayout.text x
  | str s => quoted s
  | array items => block '[' ']' level (prettyEach (level + 1) items)
  | object members => block '\x7b' '\x7d' level (prettyMembers (level + 1) members)
termination_by structural j => j

def prettyEach (level : Nat) : List Json → List (List Char)
  | [] => []
  | j :: js => prettyChars level j :: prettyEach level js
termination_by structural js => js

def prettyMembers (level : Nat) : List (String × Json) → List (List Char)
  | [] => []
  | (k, j) :: ms => (quoted k ++ ':' :: ' ' :: prettyChars level j) :: prettyMembers level ms
termination_by structural ms => ms

end

/-- The text of the document over several lines. -/
def pretty (j : Json) : String := String.ofList (j.prettyChars 0)

/-! ## Sorted objects -/

mutual

/-- The document with the members of every object in ascending order of their keys; of members
with one key the last stays. -/
def sorted : Json → Json
  | array items => array (sortedEach items)
  | object members => object (sortedMembers members)
  | j => j
termination_by structural j => j

def sortedEach : List Json → List Json
  | [] => []
  | j :: js => sorted j :: sortedEach js
termination_by structural js => js

def sortedMembers : List (String × Json) → Table Json
  | [] => []
  | (k, j) :: ms =>
    let rest := sortedMembers ms
    if rest.has k then rest else rest.insert k (sorted j)
termination_by structural ms => ms

end

end Json

namespace Value

mutual

/-- The value as a document: every entry of a map is a member, in order. -/
def toJson : Value → Json
  | absent => .null
  | bool b => .bool b
  | int n => .int n.toInt
  | float x => if isFinite x then .float x else .null
  | str s => .str s
  | decimal d => .str (String.ofList d.chars)
  | list items | tuple items | set items => .array (toJsonEach items)
  | map entries => .object (toJsonMembers entries)
  | custom c => .str (String.ofList (Payloads.display c.payload))
termination_by structural v => v

def toJsonEach : List Value → List Json
  | [] => []
  | v :: vs => toJson v :: toJsonEach vs
termination_by structural vs => vs

def toJsonMembers : List (Value × Value) → List (String × Json)
  | [] => []
  | (k, v) :: es => (k.plain, toJson v) :: toJsonMembers es
termination_by structural es => es

end

theorem toJsonEach_eq_map (vs : List Value) : toJsonEach vs = vs.map toJson := by
  induction vs with
  | nil => rfl
  | cons v vs ih => simp [toJsonEach, ih]

theorem toJsonMembers_eq_map (es : List (Value × Value)) :
    toJsonMembers es = es.map fun e => (e.1.plain, e.2.toJson) := by
  induction es with
  | nil => rfl
  | cons e es ih => simp [toJsonMembers, ih]

end Value

end TypedSettings
