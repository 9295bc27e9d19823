import TypedSettings.Conversion.Error
import TypedSettings.Number.Integer
import TypedSettings.Text.Blank
import TypedSettings.Types.Basic

/-!
# Scalars from texts

How the text of an override is read as a scalar, and the constructors of a few types whose values
are written as they are displayed. Main statement: a text always converts to a truth value, to a
text and to no value (`convert_isOk_of_total`).
-/

namespace TypedSettings

open Text Number

variable [Payloads]

/-- The text without surrounding blanks and without digit separators, if each is well placed. -/
def numberText? (raw : String) : Option (List Char) :=
  withoutSeparators? none (trim raw.toList)

/-- `parse_int`: the integer that the text of an override writes. -/
def overrideInt? (raw : String) : Option Int64 := (numberText? raw).bind readInt64

/-- `parse_float`: the float that the text of an override writes. -/
def overrideFloat? (raw : String) : Option Float := (numberText? raw).bind readFloat

def isTrueWord (raw : String) : Bool := raw.toList.map Char.toLower == ['t', 'r', 'u', 'e']

/-- `convert_primitive`: the value of a scalar type that a text writes. -/
def Scalar.convert (setting raw : String) : Scalar → Except ConversionError Value
  | bool => .ok (.bool (isTrueWord raw))
  | absent => .ok (.str raw)
  | str => .ok (.str raw)
  | int =>
    match overrideInt? raw with
    | some n => .ok (.int n)
    | none => .error (.mismatch setting raw Scalar.int.name)
  | float =>
    match overrideFloat? raw with
    | some x => .ok (.float x)
    | none => .error (.mismatch setting raw Scalar.float.name)
  | decimal =>
    match Decimal.read (trim raw.toList) with
    | .ok d => .ok (.decimal d)
    | .error cause => .error (.decimal setting raw cause)

/-- Whether a value that a literal wrote has the scalar type. A truth value counts as an integer;
no literal writes a decimal. -/
def Scalar.admits : Scalar → Value → Bool
  | bool, .bool _ => true
  | int, .int _ => true
  | int, .bool _ => true
  | float, .float _ => true
  | str, .str _ => true
  | absent, .absent => true
  | _, _ => false

theorem Scalar.convert_isOk_of_total {s : Scalar} (h : s = bool ∨ s = str ∨ s = absent)
    (setting raw : String) : (s.convert setting raw).toBool = true := by
  rcases h with rfl | rfl | rfl <;> rfl

/-- `FromStrConstructor`: the constructor of a type whose values are read from their texts. -/
def Constructor.ofReader (typeName : String) (read : String → Option Payload) : Constructor :=
  ⟨typeName, fun raw => (read raw).map fun payload => .custom ⟨typeName, payload⟩⟩

end TypedSettings
