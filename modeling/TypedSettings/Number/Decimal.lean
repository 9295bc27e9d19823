import TypedSettings.Text.Digit

/-!
# Scaled decimals

A decimal is an integer of at most 96 bits over a power of ten of at most 28, so that trailing
zeros are kept and zero has no sign. Main statement: equal decimals may differ in scale
(`equal_iff`).
-/

namespace TypedSettings

open Text

/-- The number `unscaled / 10 ^ scale`. -/
structure Decimal where
  unscaled : Int
  scale : Nat
  fits : unscaled.natAbs < Nat.pow 2 96 := by decide
  scale_le : scale ≤ 28 := by decide
deriving DecidableEq

/-- Why a text is no decimal. -/
inductive DecimalError where
  | empty
  | noDigits
  | secondPoint
  | leadingSeparator
  | unknownCharacter
  | tooManyDigits
  | roundedTooLarge
  | badExponent
  | scaleTooLarge (scale : Nat)
  | tooLarge
deriving DecidableEq

namespace DecimalError

def message : DecimalError → String
  | empty => "Invalid decimal: empty"
  | noDigits => "Invalid decimal: no digits found"
  | secondPoint => "Invalid decimal: two decimal points"
  | leadingSeparator => "Invalid decimal: must start lead with a number"
  | unknownCharacter => "Invalid decimal: unknown character"
  | tooManyDigits => "Invalid decimal: overflow from too many digits"
  | roundedTooLarge => "Invalid decimal: overflow from mantissa after rounding"
  | badExponent => "Failed to parse"
  | scaleTooLarge n => "Scale exceeds the maximum precision allowed: " ++ toString n ++ " > 28"
  | tooLarge => "Number exceeds maximum value that can be represented."

end DecimalError

namespace Decimal

/-! ## Value and text -/

def equal (a b : Decimal) : Bool :=
  a.unscaled * Int.pow 10 b.scale == b.unscaled * Int.pow 10 a.scale

/-- The text of a decimal: all of its places, and at least one digit before the point. -/
def chars (d : Decimal) : List Char :=
  let ds := decimalDigits d.unscaled.natAbs
  let padded := List.replicate (d.scale + 1 - ds.length) '0' ++ ds
  let whole := padded.take (padded.length - d.scale)
  let places := padded.drop (padded.length - d.scale)
  (if d.unscaled < 0 then ['-'] else []) ++ whole ++ (if d.scale = 0 then [] else '.' :: places)

theorem equal_iff (a b : Decimal) :
    a.equal b = true ↔ a.unscaled * Int.pow 10 b.scale = b.unscaled * Int.pow 10 a.scale := by
  simp [equal]

theorem equal_refl (a : Decimal) : a.equal a = true := by
  simp [equal_iff]

theorem equal_symm (a b : Decimal) : a.equal b = b.equal a := by
  simp only [equal]
  exact Bool.eq_iff_iff.2 (by simpa using ⟨Eq.symm, Eq.symm⟩)

/-! ## Reading -/

/-- The greatest integer that a decimal can hold. -/
def greatest : Nat := Nat.pow 2 96 - 1

def greatestScale : Nat := 28

/-- The decimal of a magnitude, a sign and a scale, if they fit. -/
def ofParts? (negative : Bool) (n scale : Nat) : Option Decimal :=
  if h : n < Nat.pow 2 96 ∧ scale ≤ 28 then
    some ⟨if negative then -(n : Int) else n, scale, by split <;> omega, h.2⟩
  else none

def misplaced (c : Char) : DecimalError :=
  if c = '.' then .secondPoint else if c = '_' then .leadingSeparator else .unknownCharacter

/-- Rounds at the first place that does not fit, half up on the one digit there; of the places
after it only the characters are checked. -/
def roundOff (n scale : Nat) (c : Char) (rest : List Char) : Except DecimalError (Nat × Nat) :=
  if c = '_' ∨ c.isDigit then
    match rest.find? fun c => !(c.isDigit || c == '_') with
    | some bad => .error (misplaced bad)
    | none =>
      if c.isDigit && 5 ≤ ofDigits 10 [c] then
        if n + 1 ≤ greatest then .ok (n + 1, scale)
        else if scale = 0 then .error .roundedTooLarge
        else .ok ((n + 1 + 4) / 10, scale - 1)
      else .ok (n, scale)
  else .error (misplaced c)

/-- Reads digits from left to right. The flags say whether the point and a digit were seen. -/
def readDigits (point seen : Bool) (n scale : Nat) : List Char → Except DecimalError (Nat × Nat)
  | [] => if seen then .ok (n, scale) else .error .noDigits
  | c :: r =>
    if point && scale == greatestScale then roundOff n scale c r
    else if c.isDigit then
      let n' := n * 10 + ofDigits 10 [c]
      if n' ≤ greatest then readDigits point true n' (if point then scale + 1 else scale) r
      else if point then roundOff n scale c r
      else .error .tooManyDigits
    else if c = '.' ∧ ¬ point then readDigits true seen n scale r
    else if c = '_' ∧ seen then readDigits point seen n scale r
    else .error (misplaced c)

/-- Reads a sign and digits: the sign, the integer and its scale. -/
def readPlain : List Char → Except DecimalError (Bool × Nat × Nat)
  | [] => .error .empty
  | '-' :: r => (true, ·) <$> readDigits false false 0 0 r
  | '+' :: r => (false, ·) <$> readDigits false false 0 0 r
  | s => (false, ·) <$> readDigits false false 0 0 s

/-- An unsigned exponent of at most 32 bits, a plus sign allowed. -/
def readExponent (s : List Char) : Option Nat :=
  let ds := match s with
    | '+' :: r => r
    | s => s
  if !ds.isEmpty && ds.all Char.isDigit && ofDigits 10 ds < UInt32.size then some (ofDigits 10 ds)
  else none

/-- The integer rounded to drop some of its places, half away from zero. -/
def dropPlaces (n places : Nat) : Nat :=
  if places = 0 then n else (n + Nat.pow 10 places / 2) / Nat.pow 10 places

/-- Scales a number down by a power of ten; places beyond the greatest scale are rounded off. -/
def scaleDown (n scale exponent : Nat) : Except DecimalError (Nat × Nat) :=
  if greatestScale < exponent then .error (.scaleTooLarge exponent)
  else if scale + exponent ≤ greatestScale then .ok (n, scale + exponent)
  else .ok (dropPlaces n (scale + exponent - greatestScale), greatestScale)

/-- Scales a number up by a power of ten. -/
def scaleUp (n scale exponent : Nat) : Except DecimalError (Nat × Nat) :=
  if exponent ≤ scale then .ok (n, scale - exponent)
  else if greatestScale < exponent then .error (.scaleTooLarge exponent)
  else if n * Nat.pow 10 (exponent - scale) ≤ greatest then
    .ok (n * Nat.pow 10 (exponent - scale), 0)
  else .error .tooLarge

/-- Reads a base and an exponent around the first exponent mark. -/
def readScientific (s : List Char) : Except DecimalError (Bool × Nat × Nat) := do
  let isMark := fun c => c == 'e' || c == 'E'
  let (negative, n, scale) ← readPlain (s.takeWhile (!isMark ·))
  match (s.dropWhile (!isMark ·)).drop 1 with
  | '-' :: r =>
    match readExponent r with
    | some e => (negative, ·) <$> scaleDown n scale e
    | none => .error .badExponent
  | r =>
    match readExponent r with
    | some e => (negative, ·) <$> scaleUp n scale e
    | none => .error .badExponent

/-- `parse_decimal`: a text that is none as it stands is read as a base and an exponent if it
has an exponent mark. -/
def read (s : List Char) : Except DecimalError Decimal := do
  let (negative, n, scale) ←
    match readPlain s with
    | .ok r => .ok r
    | .error e => if s.any fun c => c == 'e' || c == 'E' then readScientific s else .error e
  match ofParts? negative n scale with
  | some d => .ok d
  | none => .error .tooLarge

end Decimal

end TypedSettings
