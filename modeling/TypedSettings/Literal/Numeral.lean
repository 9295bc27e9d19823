import TypedSettings.Literal.Fault
import TypedSettings.Number.FloatText
import TypedSettings.Text.Numeral
import TypedSettings.Value.Basic

/-!
# Number tokens

Integers in base ten, sixteen, eight and two and floats, with single underscores between digits.
An integer has to fit 64 bits, and no word character or point may follow a number.
-/

namespace TypedSettings.Literal

open Text Number

variable [Payloads]

/-! ## Digit runs -/

/-- `LiteralParser::digits`: a run of digits with single underscores between them. The flag says
whether an underscore may come next: after a digit, and after the mark of a base. -/
def digitRun (isDigit : Char → Bool) : Bool → List Char → Step (List Char)
  | _, [] => .ok ([], [])
  | mayPause, c :: r =>
    if isDigit c then
      (digitRun isDigit true r).next fun ds r => .ok (c :: ds, r)
    else if c = '_' then
      if mayPause && r.head?.any isDigit then digitRun isDigit false r
      else .error ⟨.badSeparator, c :: r⟩
    else .ok ([], c :: r)

/-! ## Integers -/

/-- The base that a mark after a zero stands for. -/
def baseOfMark? (c : Char) : Option Nat :=
  if c = 'x' ∨ c = 'X' then some 16
  else if c = 'o' ∨ c = 'O' then some 8
  else if c = 'b' ∨ c = 'B' then some 2
  else none

/-- `LiteralParser::signed_int`: the 64-bit integer with a sign and a magnitude, if there is
one. -/
def signedInt? (negative : Bool) (n : Nat) : Option Int64 :=
  let signed : Int := if negative then -n else n
  if Int64.minValue.toInt ≤ signed ∧ signed ≤ Int64.maxValue.toInt then some (Int64.ofInt signed)
  else none

/-- The base and the digits of a number that starts with a zero and the mark of a base. -/
def based? : List Char → Option (Nat × List Char)
  | '0' :: mark :: r => (baseOfMark? mark).map (·, r)
  | _ => none

/-- The integer that digits write; one that does not fit is a fault at the start of the number. -/
def intValue (negative : Bool) (base : Nat) (start ds r : List Char) : Step Value :=
  match signedInt? negative (ofDigits base ds) with
  | some n => .ok (.int n, r)
  | none => .error ⟨.tooLarge, start⟩

/-- An integer in the base, from its first digit on; faults of the whole number are placed at its
start. -/
def basedInt (negative : Bool) (start : List Char) (base : Nat) (s : List Char) : Step Value :=
  (digitRun (isDigitOf base) true s).next fun ds r =>
    if ds.isEmpty then .error ⟨.noDigits, start⟩
    else intValue negative base start ds r

/-! ## Numbers in base ten -/

/-- The fraction after the digits before the point, if there is a point. -/
def fractionPart : List Char → Step (Option (List Char))
  | '.' :: r =>
    if r.head?.any Char.isDigit then
      (digitRun Char.isDigit false r).next fun ds r => .ok (some ds, r)
    else .ok (some [], r)
  | s => .ok (none, s)

/-- Splits an optional sign off; whether it is a minus. -/
def signOf : List Char → Bool × List Char
  | '-' :: r => (true, r)
  | '+' :: r => (false, r)
  | s => (false, s)

/-- The exponent after a number, if there is an exponent mark. -/
def exponentPart : List Char → Step (Option Int)
  | mark :: r =>
    if mark = 'e' ∨ mark = 'E' then
      let (negative, s) := signOf r
      if s.head?.any Char.isDigit then
        (digitRun Char.isDigit false s).next fun ds r =>
          .ok (some (if negative then -(ofDigits 10 ds : Int) else ofDigits 10 ds), r)
      else .error ⟨.badExponent, mark :: r⟩
    else .ok (none, mark :: r)
  | [] => .ok (none, [])

/-- Whether a run of digits begins with a zero that says nothing. -/
def hasLeadingZeros (ds : List Char) : Bool :=
  1 < ds.length && ds.head? == some '0' && ds.any (· != '0')

/-- `LiteralParser::decimal_number`: a float if it has a fraction or an exponent, else an
integer. -/
def decimalNumber (negative : Bool) (start : List Char) : Step Value :=
  (digitRun Char.isDigit false start).next fun whole r =>
  (fractionPart r).next fun fraction r =>
  (exponentPart r).next fun exponent r =>
    if fraction.isSome || exponent.isSome then
      let x := nearestFloat whole (fraction.getD []) (exponent.getD 0)
      .ok (.float (if negative then -x else x), r)
    else if hasLeadingZeros whole then .error ⟨.leadingZeros, start⟩
    else intValue negative 10 start whole r

/-! ## Numbers -/

def continuesNumber (c : Char) : Bool := isWordChar c || c == '.'

/-- A number, up to where it ends by itself. -/
def openNumber (negative : Bool) (s : List Char) : Step Value :=
  match based? s with
  | some (base, ds) => basedInt negative s base ds
  | none => decimalNumber negative s

/-- `LiteralParser::number`: a number without its sign, which is given. -/
def number (negative : Bool) (s : List Char) : Step Value :=
  (openNumber negative s).next fun v r =>
    if r.head?.any continuesNumber then .error ⟨.badNumber, r⟩ else .ok (v, r)

/-- Whether a number starts here: a digit, or a point and a digit. -/
def startsNumber : List Char → Bool
  | '.' :: c :: _ => c.isDigit
  | c :: _ => c.isDigit
  | [] => false

end TypedSettings.Literal
