import TypedSettings.Number.FloatText
import TypedSettings.Value.Basic

/-!
# Values as literals

The text of a value in literal syntax, from which the literal reader gets it back. A text is
quoted with apostrophes unless it holds an apostrophe and no double quote.
-/

namespace TypedSettings

open Text Number

namespace Value

variable [Payloads]

/-- Floats in literals: positional from `0.0001` up to below `10 ^ 16`, no plus sign in exponents,
and a tie between two shortest decimals goes up. -/
def floatLayout : FloatLayout := ⟨-4, 16, false, .up⟩

/-! ## Quoted texts -/

/-- The quote that a text is written with. -/
def quoteFor (s : List Char) : Char :=
  if s.contains '\x27' && !s.contains '\x22' then '\x22' else '\x27'

/-- A control character by its two-digit number. -/
def hexEscape (c : Char) : List Char :=
  let ds := Nat.toDigits 16 c.toNat
  '\\' :: 'x' :: (List.replicate (2 - ds.length) '0' ++ ds)

def escapeChar (quote c : Char) : List Char :=
  if c = '\\' then ['\\', '\\']
  else if c = '\n' then ['\\', 'n']
  else if c = '\r' then ['\\', 'r']
  else if c = '\t' then ['\\', 't']
  else if c = quote then ['\\', c]
  else if c.toNat < 0x20 ∨ c.toNat = 0x7F then hexEscape c
  else [c]

/-- `write_quoted`: a text in quotes. -/
def quoted (s : List Char) : List Char :=
  let quote := quoteFor s
  quote :: (s.flatMap (escapeChar quote) ++ [quote])

/-! ## The printer -/

def comma : List Char := [',', ' ']

/-- `write_items`, between the brackets: items in a row, with commas between them. -/
def commaSeparated (items : List (List Char)) : List Char := comma.intercalate items

mutual

/-- The value in literal syntax. -/
def chars : Value → List Char
  | absent => ['N', 'o', 'n', 'e']
  | bool true => ['T', 'r', 'u', 'e']
  | bool false => ['F', 'a', 'l', 's', 'e']
  | int n => ofInt n.toInt
  | float x => floatLayout.text x
  | str s => quoted s.toList
  | decimal d => d.chars
  | list items => '[' :: (commaSeparated (charsEach items) ++ [']'])
  | tuple items =>
    match charsEach items with
    | [item] => '(' :: (item ++ [',', ')'])
    | texts => '(' :: (commaSeparated texts ++ [')'])
  | set members =>
    match charsEach members with
    | [] => ['s', 'e', 't', '(', ')']
    | texts => '\x7b' :: (commaSeparated texts ++ ['\x7d'])
  | map entries => '\x7b' :: (commaSeparated (entryChars entries) ++ ['\x7d'])
  | custom c => Payloads.display c.payload
termination_by structural v => v

def charsEach : List Value → List (List Char)
  | [] => []
  | v :: vs => chars v :: charsEach vs
termination_by structural vs => vs

def entryChars : List (Value × Value) → List (List Char)
  | [] => []
  | (k, v) :: es => (chars k ++ ':' :: ' ' :: chars v) :: entryChars es
termination_by structural es => es

end

/-- The text of the value in literal syntax, as it is displayed. -/
def render (v : Value) : String := String.ofList v.chars

/-- `Value::to_plain_string`: the text of the value, a text standing for itself without quotes. -/
def plain : Value → String
  | str s => s
  | v => v.render

theorem charsEach_eq_map (vs : List Value) : charsEach vs = vs.map chars := by
  induction vs with
  | nil => rfl
  | cons v vs ih => simp [charsEach, ih]

theorem entryChars_eq_map (es : List (Value × Value)) :
    entryChars es = es.map fun e => e.1.chars ++ ':' :: ' ' :: e.2.chars := by
  induction es with
  | nil => rfl
  | cons e es ih => simp [entryChars, ih]

theorem plain_str (s : String) : (str s).plain = s := rfl

end Value

end TypedSettings
