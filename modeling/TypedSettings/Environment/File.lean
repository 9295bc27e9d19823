import TypedSettings.Environment.Basic
import TypedSettings.Text.Blank
import TypedSettings.Text.Numeral

/-!
# Variable files

A file may propose variables, one a line: a name, an equals sign and a value, in which quotes,
backslashes and references to other variables have a meaning. A variable that is set already stays
as it is, and nothing is read beyond the first line that is wrong. Main statement: no variable that
was set changes (`proposeLines_of_isSome`).
-/

namespace TypedSettings.Environment

open Text

/-! ## Lines -/

/-- What the reader of a line is in: open text, behind a blank, in quotes of either kind, or behind
a backslash in any of them. -/
inductive LineState where
  | plain
  | blank
  | escaped
  | single
  | singleEscaped
  | double
  | doubleEscaped
deriving DecidableEq

/-- The state that a quote, a backslash or another character leads to outside quotes. -/
def LineState.opened (c : Char) : LineState :=
  if c = '\\' then escaped
  else if c = '\x22' then double
  else if c = '\x27' then single
  else plain

/-- The state after a character. A blank counts only behind something else. -/
def LineState.next : LineState → Char → LineState
  | plain, c => if isBlank c ∧ c ≠ '\n' ∧ c ≠ '\r' then blank else opened c
  | blank, c => opened c
  | escaped, _ => plain
  | single, c => if c = '\\' then singleEscaped else if c = '\x27' then plain else single
  | singleEscaped, _ => single
  | double, c => if c = '\\' then doubleEscaped else if c = '\x22' then plain else double
  | doubleEscaped, _ => double

/-- The characters of a line up to a comment, and the state at the end. A comment starts behind a
blank and ends in open text. -/
def scanLine : LineState → List Char → List Char × LineState
  | state, [] => ([], state)
  | state, c :: r =>
    if state = .blank ∧ c = '#' then ([], .plain)
    else
      let (kept, state) := scanLine (state.next c) r
      (c :: kept, state)

/-- Whether the first character that is not blank starts a comment. -/
def isCommentLine (s : List Char) : Bool := (trimStart s).head? == some '#'

/-- The lines of a file: a line that ends in quotes or behind a backslash goes on with the next.
What stands before is given with its state. A line that cannot be read, or that never ends, is
none. -/
def joinLines (state : LineState) (before : List Char) :
    List (Option (List Char)) → List (Option (List Char))
  | [] => if state = .plain then [] else [none]
  | none :: _ => [none]
  | some line :: rest =>
    if isCommentLine (before ++ line) then some [] :: joinLines .plain [] rest
    else
      match scanLine state line with
      | (kept, .plain) => some (before ++ kept) :: joinLines .plain [] rest
      | (kept, state) => joinLines state (before ++ kept) rest

/-! ## Values -/

/-- What the reader of a value is in. The flag says whether it is in double quotes. -/
inductive ValueState where
  | plain (quoted : Bool)
  | single
  | escaped (quoted : Bool)
  | reference (quoted : Bool) (name : List Char)
  | bracedReference (quoted : Bool) (name : List Char)
  | ended

def escapedChar? (c : Char) : Option Char :=
  if c = '\\' ∨ c = '\x27' ∨ c = '\x22' ∨ c = '$' ∨ c = ' ' then some c
  else if c = 'n' then some '\n'
  else none

/-- The text of a variable that is referred to, nothing if it is not set. -/
def referred (env : Environment) (name : List Char) : List Char :=
  ((env (String.ofList name)).getD "").toList

/-- The text that a value writes. -/
def readValue (env : Environment) : ValueState → List Char → Option (List Char)
  | .plain quoted, [] => if quoted then none else some []
  | .single, [] => none
  | .escaped quoted, [] => if quoted then none else some []
  | .reference quoted name, [] => if quoted then none else some (referred env name)
  | .bracedReference _ _, [] => none
  | .ended, [] => some []
  | .ended, c :: r =>
    if c = ' ' ∨ c = '\t' then readValue env .ended r
    else if c = '#' then some []
    else none
  | .escaped quoted, c :: r =>
    (escapedChar? c).bind fun d => (readValue env (.plain quoted) r).map (d :: ·)
  | .single, c :: r =>
    if c = '\x27' then readValue env (.plain false) r
    else (readValue env .single r).map (c :: ·)
  | .reference quoted name, c :: r =>
    if isLetterOrNumeral c then readValue env (.reference quoted (name ++ [c])) r
    else if c = '\x7b' ∧ name.isEmpty then readValue env (.bracedReference quoted []) r
    else if c = '$' then
      (readValue env (.reference quoted []) r).map (referred env name ++ ·)
    else (readValue env (.plain quoted) r).map (referred env name ++ c :: ·)
  | .bracedReference quoted name, c :: r =>
    if c = '\x7d' then (readValue env (.plain quoted) r).map (referred env name ++ ·)
    else readValue env (.bracedReference quoted (name ++ [c])) r
  | .plain quoted, c :: r =>
    if c = '$' then readValue env (.reference quoted []) r
    else if c = '\\' then readValue env (.escaped quoted) r
    else if c = '\x22' then readValue env (.plain (!quoted)) r
    else if quoted then (readValue env (.plain true) r).map (c :: ·)
    else if c = '\x27' then readValue env .single r
    else if c = ' ' ∨ c = '\t' then readValue env .ended r
    else (readValue env (.plain false) r).map (c :: ·)

/-! ## Proposals -/

/-- What a line of the file says. -/
inductive Proposal where
  | nothing
  | proposes (name text : String)

def startsVariable (c : Char) : Bool := c.isAlpha || c == '_'

def continuesVariable (c : Char) : Bool := c.isAlphanum || c == '_' || c == '.'

def readName : List Char → Option (List Char × List Char)
  | [] => none
  | c :: r =>
    if startsVariable c then
      some (c :: r.takeWhile continuesVariable, trimStart (r.dropWhile continuesVariable))
    else none

/-- What follows an equals sign. -/
def skipEquals? : List Char → Option (List Char)
  | '=' :: r => some r
  | _ => none

/-- Reads a name and the equals sign after it; the word for export may stand in front. -/
def readAssignment (s : List Char) : Option (List Char × List Char) := do
  let (name, r) ← readName s
  match skipEquals? r with
  | some r => return (name, r)
  | none =>
    if name = ['e', 'x', 'p', 'o', 'r', 't'] then do
      let (name, r) ← readName r
      return (name, ← skipEquals? r)
    else none

def isNothing (s : List Char) : Bool := s.isEmpty || s.head? == some '#'

/-- What a line says, if it is well written. -/
def readLine (env : Environment) (line : List Char) : Option Proposal :=
  if isNothing (trim line) then some .nothing
  else do
    let (name, r) ← readAssignment (trim line)
    if isNothing (trimStart r) then return .proposes (String.ofList name) ""
    else
      let text ← readValue env (.plain false) (trimStart r)
      return .proposes (String.ofList name) (String.ofList text)

/-- The environment with the variables that lines propose, up to the first line that is wrong. -/
def proposeLines (env : Environment) : List (Option (List Char)) → Environment
  | [] => env
  | none :: _ => env
  | some line :: rest =>
    match readLine env line with
    | none => env
    | some .nothing => proposeLines env rest
    | some (.proposes name text) => proposeLines (env.propose name text) rest

/-! ## Files -/

/-- The lines of a file with their line breaks. -/
def byteLines : List UInt8 → List (List UInt8)
  | [] => []
  | b :: r =>
    if b = 10 then [b] :: byteLines r
    else
      match byteLines r with
      | [] => [[b]]
      | l :: ls => (b :: l) :: ls

def decodeLine (line : List UInt8) : Option (List Char) :=
  (String.fromUTF8? ⟨line.toArray⟩).map String.toList

/-- The bytes after the mark that may stand in front of a text. -/
def dropByteMark : List UInt8 → List UInt8
  | 0xEF :: 0xBB :: 0xBF :: r => r
  | s => s

/-- The environment with the variables that a file proposes. -/
def proposeFile (env : Environment) (content : ByteArray) : Environment :=
  env.proposeLines
    (joinLines .plain [] ((byteLines (dropByteMark content.toList)).map decodeLine))

/-! ## Laws -/

theorem propose_of_isSome {env : Environment} {name text other : String}
    (h : (env other).isSome = true) : env.propose name text other = env other := by
  rw [propose_apply]
  split
  · rename_i ho
    subst ho
    obtain ⟨old, h⟩ := Option.isSome_iff_exists.1 h
    simp [h]
  · rfl

theorem proposeLines_of_isSome {env : Environment} {name : String}
    (h : (env name).isSome = true) (lines : List (Option (List Char))) :
    env.proposeLines lines name = env name := by
  induction lines generalizing env with
  | nil => rfl
  | cons line rest ih =>
    cases line with
    | none => rfl
    | some line =>
      rcases hl : env.readLine line with _ | _ | ⟨other, text⟩ <;> simp only [proposeLines, hl]
      · exact ih h
      · have hp : env.propose other text name = env name := propose_of_isSome h
        rw [ih (hp ▸ h), hp]

end TypedSettings.Environment
