import TypedSettings.Literal.Numeral
import TypedSettings.Literal.Quoted

/-!
# Reading literals

A literal is a constant or a display of literals: a number with an optional sign, adjacent texts,
one of three names, a list, a tuple, a set or a map. Nothing is looked up and nothing is called but
the empty set. Main statement: the reader of a text answers with a value or with an error whose
position lies in the text (`parse_error_position`).
-/

namespace TypedSettings.Literal

open Text

variable [Payloads]

/-- `MAX_DEPTH`: how deep displays may be nested. -/
def maxDepth : Nat := 64

/-! ## Displays -/

abbrev ItemReader := List Char → Step Value

def eat? (c : Char) : List Char → Option (List Char)
  | [] => none
  | d :: r => if d = c then some r else none

/-- `LiteralParser::sequence`: items with commas between them up to the closing bracket; a comma
may follow the last one. -/
def items (item : ItemReader) (closing : Char) : Nat → List Char → Step (List Value)
  | 0, s => .error ⟨.endOfInput, s⟩
  | fuel + 1, s =>
    match eat? closing (dropTrivia s) with
    | some r => .ok ([], r)
    | none =>
      (item (dropTrivia s)).next fun v r =>
        match eat? ',' (dropTrivia r) with
        | some r => (items item closing fuel r).next fun vs r => .ok (v :: vs, r)
        | none =>
          match eat? closing (dropTrivia r) with
          | some r => .ok ([v], r)
          | none => .error ⟨.expectedItem closing, dropTrivia r⟩

/-- `LiteralParser::hashable`: goes on if the value is hashable; else it is a fault at the
value's place. -/
def requireHashable {α : Type} (v : Value) (place : List Char) (next : Step α) : Step α :=
  if v.hashable then next else .error ⟨.unhashable v.typeName, place⟩

/-- One member of a set or key of a map, at a place without trivia before it. -/
def member (item : ItemReader) (s : List Char) : Step Value :=
  (item s).next fun v r => requireHashable v s (.ok (v, r))

/-- The members of a set after the first and its comma, up to the closing brace. -/
def moreMembers (item : ItemReader) : Nat → List Char → Step (List Value) :=
  items (fun s => member item s) '\x7d'

/-- One entry of a map, at a place without trivia before it. -/
def entry (item : ItemReader) (s : List Char) : Step (Value × Value) :=
  (member item s).next fun k r =>
    match eat? ':' (dropTrivia r) with
    | some r => (item r).next fun v r => .ok ((k, v), r)
    | none => .error ⟨.expectedColon, dropTrivia r⟩

/-- The entries of a map after the first, up to the closing brace. -/
def moreEntries (item : ItemReader) : Nat → List Char → Step (List (Value × Value))
  | 0, s => .error ⟨.endOfInput, s⟩
  | fuel + 1, s =>
    match eat? '\x7d' (dropTrivia s) with
    | some r => .ok ([], r)
    | none =>
      match eat? ',' (dropTrivia s) with
      | none => .error ⟨.expectedItem '\x7d', dropTrivia s⟩
      | some s =>
        match eat? '\x7d' (dropTrivia s) with
        | some r => .ok ([], r)
        | none =>
          (entry item (dropTrivia s)).next fun e r =>
          (moreEntries item fuel r).next fun es r => .ok (e :: es, r)

def bracketed (item : ItemReader) (s : List Char) : Step Value :=
  (items item ']' (s.length + 1) s).next fun vs r => .ok (.list vs, r)

/-- `LiteralParser::parenthesized`, behind the parenthesis: a tuple, or one value in
parentheses. -/
def parenthesized (item : ItemReader) (s : List Char) : Step Value :=
  match eat? ')' (dropTrivia s) with
  | some r => .ok (.tuple [], r)
  | none =>
    (item (dropTrivia s)).next fun v r =>
      match eat? ')' (dropTrivia r) with
      | some r => .ok (v, r)
      | none =>
        match eat? ',' (dropTrivia r) with
        | some r => (items item ')' (r.length + 1) r).next fun vs r => .ok (.tuple (v :: vs), r)
        | none => .error ⟨.expectedItem ')', dropTrivia r⟩

/-- The rest of a map after its first key and the colon. -/
def mapAfter (item : ItemReader) (k : Value) (s : List Char) : Step Value :=
  (item s).next fun v r =>
  (moreEntries item (r.length + 1) r).next fun es r => .ok (.mapOf ((k, v) :: es), r)

def setAfter (item : ItemReader) (v : Value) (s : List Char) : Step Value :=
  match eat? '\x7d' (dropTrivia s) with
  | some r => .ok (.setOf [v], r)
  | none =>
    match eat? ',' (dropTrivia s) with
    | some r => (moreMembers item (r.length + 1) r).next fun vs r => .ok (.setOf (v :: vs), r)
    | none => .error ⟨.expectedMember, dropTrivia s⟩

/-- `LiteralParser::braced`, behind the brace: a map if a colon follows the first value, else a
set. -/
def braced (item : ItemReader) (s : List Char) : Step Value :=
  match eat? '\x7d' (dropTrivia s) with
  | some r => .ok (.map [], r)
  | none =>
    (item (dropTrivia s)).next fun v r =>
      requireHashable v (dropTrivia s) <|
        match eat? ':' (dropTrivia r) with
        | some r => mapAfter item v r
        | none => setAfter item v r

/-! ## Names -/

/-- What follows the name of the empty set: a pair of parentheses. -/
def emptyCall? (s : List Char) : Option (List Char) :=
  (eat? '(' (dropTrivia s)).bind fun r => eat? ')' (dropTrivia r)

def textValue (s : List Char) : Step Value :=
  (texts s).next fun cs r => .ok (.str (String.ofList cs), r)

/-- `LiteralParser::name`: a marked text, or one of the names of constants. -/
def named (s : List Char) : Step Value :=
  let name := s.takeWhile isWordChar
  let r := s.dropWhile isWordChar
  if r.head?.any isQuote then
    if name.map Char.toLower = ['r'] ∨ name.map Char.toLower = ['u'] then textValue s
    else .error ⟨.badTextMark (String.ofList name), s⟩
  else if name = ['T', 'r', 'u', 'e'] then .ok (.bool true, r)
  else if name = ['F', 'a', 'l', 's', 'e'] then .ok (.bool false, r)
  else if name = ['N', 'o', 'n', 'e'] then .ok (.absent, r)
  else if name = ['s', 'e', 't'] then
    match emptyCall? r with
    | some r => .ok (.set [], r)
    | none => .error ⟨.setCall, s⟩
  else .error ⟨.unknownName (String.ofList name), s⟩

/-! ## Values -/

/-- Reads a value that starts with the character, which is no trivia; its items are read by the
reader one level deeper. -/
def valueFrom (item : ItemReader) (c : Char) (r : List Char) : Step Value :=
  if c = '+' ∨ c = '-' then
    if startsNumber (dropTrivia r) then number (c == '-') (dropTrivia r)
    else .error ⟨.signWithoutNumber, c :: r⟩
  else if startsNumber (c :: r) then number false (c :: r)
  else if isQuote c then textValue (c :: r)
  else if c = '[' then bracketed item r
  else if c = '(' then parenthesized item r
  else if c = '\x7b' then braced item r
  else if isLetter c || c == '_' then named (c :: r)
  else .error ⟨.unexpected c, c :: r⟩

/-- `LiteralParser::expression`: reads a value in which at most this many levels are left. -/
def value : Nat → ItemReader
  | 0, s => .error ⟨.tooDeep, s⟩
  | levels + 1, s =>
    match dropTrivia s with
    | [] => .error ⟨.endOfInput, []⟩
    | c :: r => valueFrom (value levels) c r

/-- The characters from the first on that is neither a space nor a tab. -/
def dropIndent (s : List Char) : List Char := s.dropWhile fun c => c == ' ' || c == '\t'

/-- Reads a literal that makes up the whole of the characters, trivia around it aside. -/
def whole (s : List Char) : Except (Fault Char Cause) Value :=
  match value (maxDepth + 1) s with
  | .error f => .error f
  | .ok (v, r) =>
    match dropTrivia r with
    | [] => .ok v
    | r => .error ⟨.trailingInput, r⟩

/-- `parse_literal`: the value that a text writes. -/
def parse (input : String) : Except Error Value :=
  match whole (dropIndent input.toList) with
  | .ok v => .ok v
  | .error f => .error (.ofFault input.toList f)

theorem parse_error_position {input : String} {e : Error} (h : parse input = .error e) :
    e.position ≤ input.toList.length := by
  unfold parse at h
  split at h
  · cases h
  · cases h
    exact Error.position_ofFault_le ..

end TypedSettings.Literal
