import TypedSettings.Number.FloatText
import TypedSettings.Toml.DateTime

/-!
# Numbers

TOML's integers in base ten, sixteen, eight and two and its floats. Each reader takes the longest
number at the start of the text; what it leaves decides whether the number stood there alone.
-/

namespace TypedSettings.Toml

open Text Number

/-! ## Digit runs -/

/-- The rest of a run of digits after its first digit, and what follows the run. A single underscore
may stand before a digit. -/
def moreDigits (isDigit : Char → Bool) : List Char → List Char × List Char
  | [] => ([], [])
  | ['_'] => ([], ['_'])
  | '_' :: c :: r =>
    if isDigit c then
      let (ds, r) := moreDigits isDigit r
      (c :: ds, r)
    else ([], '_' :: c :: r)
  | c :: r =>
    if isDigit c then
      let (ds, r) := moreDigits isDigit r
      (c :: ds, r)
    else ([], c :: r)

/-- Reads a run of one or more digits. -/
def digitRun? (isDigit : Char → Bool) : List Char → Option (List Char × List Char)
  | [] => none
  | c :: r =>
    if isDigit c then
      let (ds, r) := moreDigits isDigit r
      some (c :: ds, r)
    else none

/-- Reads the digits of a number in base ten; a zero in front of others stands alone. -/
def wholeDigits? : List Char → Option (List Char × List Char)
  | '0' :: r => some (['0'], r)
  | s => digitRun? Char.isDigit s

/-- Splits an optional sign off; whether it is a minus. -/
def signOf : List Char → Bool × List Char
  | '-' :: r => (true, r)
  | '+' :: r => (false, r)
  | s => (false, s)

/-! ## Integers -/

/-- The integer, if it fits 64 bits. -/
def fitting? (n : Int) : Option Int64 :=
  if Int64.minValue.toInt ≤ n ∧ n ≤ Int64.maxValue.toInt then some (Int64.ofInt n) else none

/-- The base that the first two characters name, and what follows them. -/
def based? : List Char → Option (Nat × List Char)
  | '0' :: 'x' :: r => some (16, r)
  | '0' :: 'o' :: r => some (8, r)
  | '0' :: 'b' :: r => some (2, r)
  | _ => none

def readInt (s : List Char) : Option (Int64 × List Char) :=
  match based? s with
  | some (base, r) => do
    let (ds, r) ← digitRun? (isDigitOf base) r
    return (← fitting? (ofDigits base ds), r)
  | none => do
    let (negative, r) := signOf s
    let (ds, r) ← wholeDigits? r
    return (← fitting? (if negative then -(ofDigits 10 ds : Int) else ofDigits 10 ds), r)

/-! ## Floats -/

def fraction? : List Char → Option (List Char × List Char)
  | '.' :: r => digitRun? Char.isDigit r
  | _ => none

def exponent? : List Char → Option (Int × List Char)
  | [] => none
  | mark :: r =>
    if mark = 'e' ∨ mark = 'E' then do
      let (negative, r) := signOf r
      let (ds, r) ← digitRun? Char.isDigit r
      return (if negative then -(ofDigits 10 ds : Int) else ofDigits 10 ds, r)
    else none

/-- A float with a sign; one that is too large is allowed below zero only. -/
def signedFloat? (negative : Bool) (x : Float) : Option Float :=
  if negative then some (-x) else if isFinite x then some x else none

/-- Reads a float that is written in digits: it has a fraction, an exponent or both. -/
def readDigitFloat (s : List Char) : Option (Float × List Char) := do
  let (negative, s) := signOf s
  let (whole, s) ← wholeDigits? s
  match fraction? s with
  | some (fraction, s) =>
    match exponent? s with
    | some (exponent, s) =>
      return (← signedFloat? negative (nearestFloat whole fraction exponent), s)
    | none => return (← signedFloat? negative (nearestFloat whole fraction 0), s)
  | none => do
    let (exponent, s) ← exponent? s
    return (← signedFloat? negative (nearestFloat whole [] exponent), s)

/-- Reads one of the floats that have names. -/
def readNamedFloat (s : List Char) : Option (Float × List Char) :=
  match signOf s with
  | (negative, 'i' :: 'n' :: 'f' :: r) => some (if negative then -infinity else infinity, r)
  | (_, 'n' :: 'a' :: 'n' :: r) => some (notANumber, r)
  | _ => none

def readFloat (s : List Char) : Option (Float × List Char) :=
  match readDigitFloat s with
  | some x => some x
  | none => readNamedFloat s

end TypedSettings.Toml
