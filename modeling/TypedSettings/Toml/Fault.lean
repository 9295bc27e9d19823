import TypedSettings.Step

/-!
# Faults of definition texts

What can be wrong with a TOML text, and where: the position of an error is the number of characters
before the suffix that was left at the fault (`Error.position_ofFault_le`).
-/

namespace TypedSettings.Toml

/-- Why a text is no TOML document. -/
inductive Cause where
  | expectedKey
  | expectedEquals
  | expectedValue
  | expectedItem (closing : Char)
  | expectedHeaderEnd
  | expectedLineEnd
  | unclosedText
  | controlCharacter (c : Char)
  | badEscape
  | badNumber
  | tooDeep
  | duplicateKey (key : String)
  | notTable (key : String)
deriving DecidableEq

def Cause.message : Cause → String
  | expectedKey => "expected a key"
  | expectedEquals => "expected '=' after the key"
  | expectedValue => "expected a value"
  | expectedItem closing => "expected ',' or '" ++ closing.toString ++ "'"
  | expectedHeaderEnd => "expected the end of the table header"
  | expectedLineEnd => "expected the end of the line"
  | unclosedText => "the string is not closed"
  | controlCharacter _ => "control characters are not allowed here"
  | badEscape => "invalid escape sequence"
  | badNumber => "invalid number or date"
  | tooDeep => "nested too deep"
  | duplicateKey key => "duplicate key '" ++ key ++ "'"
  | notTable key => "'" ++ key ++ "' is not a table"

/-- A step of a reader of TOML. -/
abbrev Step (α : Type) := TypedSettings.Step Char Cause α

/-- A cause and the number of characters before its place. -/
structure Error where
  cause : Cause
  position : Nat
deriving DecidableEq

def Error.ofFault (input : List Char) (f : Fault Char Cause) : Error :=
  ⟨f.cause, input.length - f.left.length⟩

theorem Error.position_ofFault_le (input : List Char) (f : Fault Char Cause) :
    (Error.ofFault input f).position ≤ input.length :=
  Nat.sub_le ..

def Error.message (e : Error) : String :=
  e.cause.message ++ " at position " ++ toString e.position

end TypedSettings.Toml
