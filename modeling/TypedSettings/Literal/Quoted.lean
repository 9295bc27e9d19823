import TypedSettings.Literal.Fault
import TypedSettings.Literal.Trivia
import TypedSettings.Text.Digit

/-!
# Text tokens

Quoted texts: in one or three quotes of either kind, with escapes, or raw, where a backslash stands
for itself. Adjacent texts are one text.
-/

namespace TypedSettings.Literal

open Text

/-! ## Escapes -/

/-- The number written by exactly this many hexadecimal digits, and the rest. -/
def hexDigits : Nat → Nat → List Char → Step Nat
  | 0, n, s => .ok (n, s)
  | _ + 1, _, [] => .error ⟨.truncatedEscape, []⟩
  | width + 1, n, c :: r =>
    if isDigitOf 16 c then hexDigits width (n * 16 + ofDigits 16 [c]) r
    else .error ⟨.truncatedEscape, c :: r⟩

/-- The number written by at most this many octal digits, and the rest. -/
def octalDigits : Nat → Nat → List Char → Nat × List Char
  | 0, n, s => (n, s)
  | _ + 1, n, [] => (n, [])
  | width + 1, n, c :: r =>
    if isDigitOf 8 c then octalDigits width (n * 8 + ofDigits 8 [c]) r else (n, c :: r)

/-- `LiteralParser::code_point`: the character with a number, if it is a Unicode scalar value. -/
def charOf (n : Nat) (r : List Char) : Step (List Char) :=
  if n.isValidChar then .ok ([Char.ofNat n], r) else .error ⟨.badCodePoint n, r⟩

def simpleEscape? : Char → Option (List Char)
  | '\n' => some []
  | '\\' => some ['\\']
  | '\x27' => some ['\x27']
  | '\x22' => some ['\x22']
  | 'n' => some ['\n']
  | 't' => some ['\t']
  | 'r' => some ['\r']
  | 'a' => some ['\x07']
  | 'b' => some ['\x08']
  | 'f' => some ['\x0c']
  | 'v' => some ['\x0b']
  | _ => none

def hexWidth? : Char → Option Nat
  | 'x' => some 2
  | 'u' => some 4
  | 'U' => some 8
  | _ => none

/-- What the character after a backslash, with the digits that belong to it, stands for. An unknown
escape stands for itself, backslash included. -/
def escape (c : Char) (r : List Char) : Step (List Char) :=
  match simpleEscape? c with
  | some cs => .ok (cs, r)
  | none =>
    if isDigitOf 8 c then
      let (n, r) := octalDigits 2 (ofDigits 8 [c]) r
      charOf n r
    else
      match hexWidth? c with
      | some width => (hexDigits width 0 r).next charOf
      | none => .ok (['\\', c], r)

/-! ## Texts -/

/-- How a text is delimited and read. -/
structure TextStyle where
  quote : Char
  triple : Bool
  raw : Bool
deriving DecidableEq

def TextStyle.closing (style : TextStyle) : List Char :=
  if style.triple then [style.quote, style.quote, style.quote] else [style.quote]

/-- What a backslash and the character after it stand for in a text. -/
def TextStyle.escape (style : TextStyle) (c : Char) (r : List Char) : Step (List Char) :=
  if style.raw then .ok (['\\', c], r) else Literal.escape c r

/-- The characters after a given beginning. -/
def dropStart? : List Char → List Char → Option (List Char)
  | [], s => some s
  | _ :: _, [] => none
  | x :: xs, c :: r => if x = c then dropStart? xs r else none

/-- Reads the characters of a text up to and with its closing quotes, given at least as much fuel
as there are characters. A text without an end is a fault at its start. -/
def textBody (style : TextStyle) (start : List Char) : Nat → List Char → Step (List Char)
  | 0, _ => .error ⟨.unterminated, start⟩
  | fuel + 1, s =>
    match dropStart? style.closing s, s with
    | some r, _ => .ok ([], r)
    | none, [] => .error ⟨.unterminated, start⟩
    | none, '\\' :: [] => .error ⟨.unterminated, start⟩
    | none, '\\' :: c :: r =>
      (style.escape c r).next fun piece r =>
      (textBody style start fuel r).next fun rest r => .ok (piece ++ rest, r)
    | none, c :: r =>
      if c = '\n' ∧ ¬ style.triple then .error ⟨.unterminated, start⟩
      else (textBody style start fuel r).next fun rest r => .ok (c :: rest, r)

def isQuote (c : Char) : Bool := c == '\x27' || c == '\x22'

/-- Whether the character may mark the text that follows: raw, or without effect. -/
def isTextMark (c : Char) : Bool := c == 'r' || c == 'R' || c == 'u' || c == 'U'

/-- Splits a mark in front of a text off; whether it makes the text raw. -/
def textMark : List Char → Bool × List Char
  | c :: r => if isTextMark c then (c == 'r' || c == 'R', r) else (false, c :: r)
  | [] => (false, [])

/-- Whether the same quote stands here twice. -/
def opensTriple (quote : Char) : List Char → Bool
  | a :: b :: _ => a == quote && b == quote
  | _ => false

/-- `LiteralParser::string`: one text with its quotes and its mark. -/
def text (s : List Char) : Step (List Char) :=
  match textMark s with
  | (raw, quote :: r) =>
    if isQuote quote then
      let triple := opensTriple quote r
      let body := if triple then r.drop 2 else r
      textBody ⟨quote, triple, raw⟩ s (body.length + 1) body
    else .error ⟨.expectedText, quote :: r⟩
  | (_, []) => .error ⟨.expectedText, []⟩

def startsText : List Char → Bool
  | c :: q :: _ => isQuote c || (isTextMark c && isQuote q)
  | c :: _ => isQuote c
  | [] => false

/-- Further texts after one, with trivia between them; the trivia after the last is left. -/
def moreTexts : Nat → List Char → Step (List Char)
  | 0, s => .ok ([], s)
  | fuel + 1, s =>
    let next := dropTrivia s
    if startsText next then
      (text next).next fun cs r =>
      (moreTexts fuel r).next fun rest r => .ok (cs ++ rest, r)
    else .ok ([], s)

/-- `LiteralParser::strings`: one or more adjacent texts. -/
def texts (s : List Char) : Step (List Char) :=
  (text s).next fun cs r =>
  (moreTexts r.length r).next fun rest r => .ok (cs ++ rest, r)

end TypedSettings.Literal
