import TypedSettings.Toml.Node
import TypedSettings.Toml.Numeral
import TypedSettings.Toml.Quoted

/-!
# Reading TOML

A document is a series of lines: keys with values, and headers of tables. Main statement: the reader
of a text answers with a table or with an error whose position lies in the text
(`parse_error_position`).
-/

namespace TypedSettings.Toml

/-- How deep arrays and tables in braces may be nested, and of how many parts a key may be. -/
def maxDepth : Nat := 79

def eat? (c : Char) : List Char → Option (List Char)
  | [] => none
  | d :: r => if d = c then some r else none

/-- The characters after blanks within a line. -/
def dropSpaces (s : List Char) : List Char := s.dropWhile isSpace

/-- The characters after a comment, if one starts here. -/
def dropComment (s : List Char) : List Char :=
  if s.head? = some '#' then s.dropWhile isPlain else s

/-- The characters after blanks, comments and line breaks; `inComment` says whether a comment has
started before. -/
def dropGap (inComment : Bool) : List Char → List Char
  | [] => []
  | c :: r =>
    if c = '\n' ∨ (c = '\r' ∧ r.head? = some '\n') then dropGap false r
    else if inComment then
      if isPlain c then dropGap true r else c :: r
    else if c = '#' then dropGap true r
    else if isSpace c then dropGap false r
    else c :: r

/-! ## Keys -/

/-- A key: the path to its table, and its name there. -/
structure Key where
  path : List String
  name : String

def isBareKeyChar (c : Char) : Bool :=
  ('a' ≤ c && c ≤ 'z') || ('A' ≤ c && c ≤ 'Z') || c.isDigit || c == '_' || c == '-'

/-- One part of a key: bare, or a text on one line. -/
def simpleKey (s : List Char) : Step String :=
  match s with
  | [] => .error ⟨.expectedKey, []⟩
  | c :: r =>
    if isQuote c then textOf ⟨c, false⟩ r
    else if isBareKeyChar c then
      .ok (String.ofList (s.takeWhile isBareKeyChar), s.dropWhile isBareKeyChar)
    else .error ⟨.expectedKey, s⟩

/-- The parts of a key with points between them, and the blanks after the last, given more fuel
than there are characters. -/
def keyParts : Nat → List Char → Step (List String)
  | 0, s => .error ⟨.expectedKey, s⟩
  | fuel + 1, s =>
    (simpleKey (dropSpaces s)).next fun k r =>
      match eat? '.' (dropSpaces r) with
      | none => .ok ([k], dropSpaces r)
      | some r => (keyParts fuel r).next fun ks r => .ok (k :: ks, r)

def key (s : List Char) : Step Key :=
  (keyParts (s.length + 1) s).next fun ks r =>
    if maxDepth < ks.length then .error ⟨.tooDeep, s⟩
    else .ok (⟨ks.dropLast, ks.getLast?.getD ""⟩, r)

/-! ## Values -/

abbrev ValueReader := List Char → Step Toml

/-- The elements of an array up to its closing bracket; a comma may follow the last. -/
def elements (item : ValueReader) : Nat → List Char → Step (List Toml)
  | 0, s => .error ⟨.expectedItem ']', s⟩
  | fuel + 1, s =>
    match eat? ']' (dropGap false s) with
    | some r => .ok ([], r)
    | none =>
      (item (dropGap false s)).next fun v r =>
        match eat? ',' (dropGap false r) with
        | some r => (elements item fuel r).next fun vs r => .ok (v :: vs, r)
        | none =>
          match eat? ']' (dropGap false r) with
          | some r => .ok ([v], r)
          | none => .error ⟨.expectedItem ']', r⟩

def keyValue (item : ValueReader) (s : List Char) : Step (Key × Toml) :=
  (key s).next fun k r =>
    match eat? '=' r with
    | none => .error ⟨.expectedEquals, r⟩
    | some r => (item (dropSpaces r)).next fun v r => .ok ((k, v), r)

/-- Keys with values of a table in braces up to the closing brace. -/
def members (item : ValueReader) : Nat → Entries → List Char → Step Entries
  | 0, _, s => .error ⟨.expectedItem '\x7d', s⟩
  | fuel + 1, entries, s =>
    (keyValue item s).next fun (k, v) r =>
      match putKey k.path k.name v .header entries with
      | .error cause => .error ⟨cause, s⟩
      | .ok entries =>
        match eat? ',' (dropSpaces r) with
        | some r => members item fuel entries r
        | none =>
          match eat? '\x7d' (dropSpaces r) with
          | some r => .ok (entries, r)
          | none => .error ⟨.expectedItem '\x7d', r⟩

def braced (item : ValueReader) (s : List Char) : Step Toml :=
  match eat? '\x7d' (dropSpaces s) with
  | some r => .ok (.table [], r)
  | none =>
    (members item (s.length + 1) [] s).next fun entries r => .ok (.table (finishEntries entries), r)

def numeral (s : List Char) : Step Toml :=
  match DateTime.read s with
  | some (d, r) => .ok (.dateTime d, r)
  | none =>
    match readFloat s with
    | some (x, r) => .ok (.float x, r)
    | none =>
      match readInt s with
      | some (n, r) => .ok (.int n, r)
      | none => .error ⟨.badNumber, s⟩

def truthValue? : List Char → Option (Bool × List Char)
  | 't' :: 'r' :: 'u' :: 'e' :: r => some (true, r)
  | 'f' :: 'a' :: 'l' :: 's' :: 'e' :: r => some (false, r)
  | _ => none

/-- Whether a number or a date-time may start with the character. -/
def startsNumeral (c : Char) : Bool :=
  c.isDigit || c == '+' || c == '-' || c == 'i' || c == 'n'

/-- Reads a value that starts with the character; its items are read by the reader one level
deeper, if there is one. -/
def valueFrom (inner? : Option ValueReader) (c : Char) (r : List Char) : Step Toml :=
  if isQuote c then (quotedText c r).next fun s r => .ok (.text s, r)
  else if c = '[' then
    match inner? with
    | none => .error ⟨.tooDeep, c :: r⟩
    | some item => (elements item (r.length + 1) r).next fun vs r => .ok (.array vs, r)
  else if c = '\x7b' then
    match inner? with
    | none => .error ⟨.tooDeep, c :: r⟩
    | some item => braced item r
  else
    match truthValue? (c :: r) with
    | some (b, r) => .ok (.bool b, r)
    | none => if startsNumeral c then numeral (c :: r) else .error ⟨.expectedValue, c :: r⟩

/-- Reads a value in which arrays and tables are nested at most so many levels deep. -/
def value : Nat → ValueReader
  | _, [] => .error ⟨.expectedValue, []⟩
  | 0, c :: r => valueFrom none c r
  | levels + 1, c :: r => valueFrom (some (value levels)) c r

/-! ## Lines -/

/-- The end of a line or of the text, after blanks and perhaps a comment. -/
def lineEnd (s : List Char) : Step Unit :=
  match dropComment (dropSpaces s) with
  | [] => .ok ((), [])
  | c :: r =>
    match newline? (c :: r) with
    | some r => .ok ((), r)
    | none => .error ⟨.expectedLineEnd, c :: r⟩

/-- A document as far as it has been read, and the path to the table that keys go into. -/
structure Draft where
  entries : Entries
  current : List String

def Draft.put (draft : Draft) (k : Key) (v : Toml) : Except Cause Draft := do
  let entries ← changeAt false (putKey k.path k.name v) .header draft.entries draft.current
  return ⟨entries, draft.current⟩

/-- The draft with a header opened; `element` says whether it is one of an array of tables. -/
def Draft.openHeader (draft : Draft) (element : Bool) (k : Key) : Except Cause Draft := do
  let change := if element then openElement k.name else openTable k.name
  let entries ← changeAt false change .header draft.entries k.path
  return ⟨entries, k.path ++ [k.name]⟩

/-- A draft that comes of reading something at a place. -/
def Draft.place (place : List Char) (x : Except Cause Draft) (r : List Char) : Step Draft :=
  match x with
  | .ok draft => .ok (draft, r)
  | .error cause => .error ⟨cause, place⟩

def header (draft : Draft) (s : List Char) : Step Draft :=
  (key s).next fun k r =>
    match eat? ']' r with
    | none => .error ⟨.expectedHeaderEnd, r⟩
    | some r => Draft.place s (draft.openHeader false k) r

/-- A header of one of an array of tables, after its opening brackets. -/
def elementHeader (draft : Draft) (s : List Char) : Step Draft :=
  (key s).next fun k r =>
    match (eat? ']' r).bind (eat? ']') with
    | none => .error ⟨.expectedHeaderEnd, r⟩
    | some r => Draft.place s (draft.openHeader true k) r

/-- What stands on a line that does not end at once. -/
def line (draft : Draft) (s : List Char) : Step Draft :=
  match s with
  | '[' :: '[' :: r => elementHeader draft r
  | '[' :: r => header draft r
  | s => (keyValue (value maxDepth) s).next fun (k, v) r => Draft.place s (draft.put k v) r

/-- Whether nothing is left of the line but a comment. -/
def isLineEnd : List Char → Bool
  | [] => true
  | c :: _ => c == '#' || c == '\n' || c == '\r'

/-- The lines of a text, given more fuel than there are characters. -/
def lines : Nat → Draft → List Char → Except (Fault Char Cause) Draft
  | 0, _, s => .error ⟨.expectedLineEnd, s⟩
  | fuel + 1, draft, s =>
    match dropSpaces s with
    | [] => .ok draft
    | c :: r =>
      match (if isLineEnd (c :: r) then .ok (draft, c :: r) else line draft (c :: r)) with
      | .error f => .error f
      | .ok (draft, r) =>
        match lineEnd r with
        | .error f => .error f
        | .ok ((), r) => lines fuel draft r

/-- The characters after the mark that may stand in front of a text. -/
def dropMark : List Char → List Char
  | '\ufeff' :: r => r
  | s => s

def document (s : List Char) : Except (Fault Char Cause) (Table Toml) :=
  match lines (s.length + 1) ⟨[], []⟩ (dropMark s) with
  | .ok draft => .ok (finishEntries draft.entries)
  | .error f => .error f

/-- The table that a TOML text writes. -/
def parse (input : String) : Except Error (Table Toml) :=
  match document input.toList with
  | .ok t => .ok t
  | .error f => .error (.ofFault input.toList f)

theorem parse_error_position {input : String} {e : Error} (h : parse input = .error e) :
    e.position ≤ input.toList.length := by
  unfold parse at h
  split at h
  · cases h
  · cases h
    exact Error.position_ofFault_le ..

end TypedSettings.Toml
