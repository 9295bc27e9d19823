import TypedSettings.Step

/-!
# Faults of literals

What can be wrong with a literal, and where: the position of an error is the number of characters
before the suffix that was left at the fault (`Error.position_ofFault_le`).
-/

namespace TypedSettings.Literal

/-- Why a text is no literal. -/
inductive Cause where
  | tooDeep
  | endOfInput
  | signWithoutNumber
  | unexpected (c : Char)
  | badTextMark (mark : String)
  | setCall
  | unknownName (name : String)
  | expectedItem (closing : Char)
  | expectedMember
  | expectedColon
  | unhashable (typeName : String)
  | noDigits
  | tooLarge
  | badNumber
  | badExponent
  | leadingZeros
  | badSeparator
  | expectedText
  | unterminated
  | truncatedEscape
  | badCodePoint (n : Nat)
  | trailingInput
deriving DecidableEq

def Cause.message : Cause → String
  | tooDeep => "literal nesting too deep"
  | endOfInput => "unexpected end of input"
  | signWithoutNumber => "sign must be followed by a number"
  | unexpected c => "unexpected character '" ++ c.toString ++ "'"
  | badTextMark mark => "unsupported string prefix '" ++ mark ++ "'"
  | setCall => "only the empty 'set()' call is allowed"
  | unknownName name => "names are not allowed in literals: '" ++ name ++ "'"
  | expectedItem closing => "expected ',' or '" ++ closing.toString ++ "'"
  | expectedMember => "expected ',', ':' or '\x7d'"
  | expectedColon => "expected ':'"
  | unhashable typeName => "unhashable type: '" ++ typeName ++ "'"
  | noDigits => "invalid integer literal"
  | tooLarge => "integer literal too large"
  | badNumber => "invalid number literal"
  | badExponent => "invalid float exponent"
  | leadingZeros => "leading zeros in decimal integer literals are not permitted"
  | badSeparator => "invalid digit separator"
  | expectedText => "expected a string"
  | unterminated => "unterminated string literal"
  | truncatedEscape => "truncated \\x, \\u or \\U escape"
  | badCodePoint n => "invalid code point 0x" ++ String.ofList (Nat.toDigits 16 n)
  | trailingInput => "unexpected trailing input"

/-- A step of a reader of literals. -/
abbrev Step (α : Type) := TypedSettings.Step Char Cause α

/-- `LiteralError`: a cause and the number of characters before its place. -/
structure Error where
  cause : Cause
  position : Nat
deriving DecidableEq

def Error.ofFault (input : List Char) (f : Fault Char Cause) : Error :=
  ⟨f.cause, input.length - f.left.length⟩

theorem Error.position_ofFault_le (input : List Char) (f : Fault Char Cause) :
    (Error.ofFault input f).position ≤ input.length :=
  Nat.sub_le ..

end TypedSettings.Literal
