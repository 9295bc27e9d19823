import TypedSettings.Text.Digit
import TypedSettings.Toml.Fault

/-!
# Texts

TOML's four kinds of texts: in double quotes with escapes, or in single quotes without, on one line
or, in three quotes, on several. A line break is always read as a line feed.
-/

namespace TypedSettings.Toml

open Text

/-! ## Characters -/

/-- Whether the character may stand in a text or a comment: no control but the tab. -/
def isPlain (c : Char) : Bool := c == '\t' || (' ' ≤ c && c != '\x7f')

def isSpace (c : Char) : Bool := c == ' ' || c == '\t'

def newline? : List Char → Option (List Char)
  | '\n' :: r => some r
  | '\r' :: '\n' :: r => some r
  | _ => none

/-! ## Escapes -/

def simpleEscape? : Char → Option Char
  | 'b' => some '\x08'
  | 't' => some '\t'
  | 'n' => some '\n'
  | 'f' => some '\x0c'
  | 'r' => some '\r'
  | '\x22' => some '\x22'
  | '\\' => some '\\'
  | _ => none

def hexWidth? : Char → Option Nat
  | 'u' => some 4
  | 'U' => some 8
  | _ => none

/-- The character that digits give by its number, if they are hexadecimal and it is one. -/
def numberedChar? (width : Nat) (ds : List Char) : Option Char :=
  if ds.length = width ∧ ds.all (isDigitOf 16) ∧ (ofDigits 16 ds).isValidChar then
    some (Char.ofNat (ofDigits 16 ds))
  else none

/-- What follows a backslash, as one character. -/
def escape : List Char → Step Char
  | [] => .error ⟨.unclosedText, []⟩
  | c :: r =>
    match simpleEscape? c with
    | some d => .ok (d, r)
    | none =>
      match (hexWidth? c).bind fun width => (numberedChar? width (r.take width)).map (·, width) with
      | some (d, width) => .ok (d, r.drop width)
      | none => .error ⟨.badEscape, c :: r⟩

/-! ## Bodies -/

/-- How a text is delimited and read. -/
structure TextStyle where
  quote : Char
  multiline : Bool
deriving DecidableEq

/-- Whether a backslash starts an escape. -/
def TextStyle.escapes (style : TextStyle) : Bool := style.quote == '\x22'

/-- The end of a text, if it is here: what follows it, and the quotes before the closing ones. At
the end of a text on several lines up to two quotes belong to it. -/
def TextStyle.end? (style : TextStyle) (s : List Char) : Option (List Char × List Char) :=
  if style.multiline then
    let run := (s.takeWhile (· == style.quote)).length
    if 3 ≤ run then
      some (List.replicate (min run 5 - 3) style.quote, s.drop (min run 5))
    else none
  else
    match s with
    | [] => none
    | c :: r => if c = style.quote then some ([], r) else none

def dropBlankLines : List Char → List Char
  | [] => []
  | '\r' :: '\n' :: r => dropBlankLines r
  | c :: r => if c = '\n' ∨ isSpace c then dropBlankLines r else c :: r

/-- What follows a backslash at the end of a line, with the line break and the blanks around it. -/
def continuation? (s : List Char) : Option (List Char) :=
  (newline? (s.dropWhile isSpace)).map dropBlankLines

/-- One character of a text, or an escape, a line break or the end of a continued line. -/
def TextStyle.piece (style : TextStyle) : List Char → Step (List Char)
  | [] => .error ⟨.unclosedText, []⟩
  | c :: r =>
    if c = '\\' ∧ style.escapes then
      match if style.multiline then continuation? r else none with
      | some r => .ok ([], r)
      | none => (escape r).next fun d r => .ok ([d], r)
    else
      match if style.multiline then newline? (c :: r) else none with
      | some r => .ok (['\n'], r)
      | none => if isPlain c then .ok ([c], r) else .error ⟨.controlCharacter c, c :: r⟩

/-- Reads the characters of a text up to and with its end, given more fuel than there are
characters. -/
def textBody (style : TextStyle) : Nat → List Char → Step (List Char)
  | 0, s => .error ⟨.unclosedText, s⟩
  | fuel + 1, s =>
    match style.end? s with
    | some (last, r) => .ok (last, r)
    | none =>
      (style.piece s).next fun piece r =>
      (textBody style fuel r).next fun rest r => .ok (piece ++ rest, r)

def textOf (style : TextStyle) (s : List Char) : Step String :=
  (textBody style (s.length + 1) s).next fun cs r => .ok (String.ofList cs, r)

def isQuote (c : Char) : Bool := c == '\x22' || c == '\x27'

/-- What follows a second and a third quote. -/
def skipTwo? (quote : Char) : List Char → Option (List Char)
  | a :: b :: r => if a = quote ∧ b = quote then some r else none
  | _ => none

/-- A text of any kind, after its first quote. A line break right after three quotes is dropped. -/
def quotedText (quote : Char) (s : List Char) : Step String :=
  match skipTwo? quote s with
  | some r => textOf ⟨quote, true⟩ ((newline? r).getD r)
  | none => textOf ⟨quote, false⟩ s

end TypedSettings.Toml
