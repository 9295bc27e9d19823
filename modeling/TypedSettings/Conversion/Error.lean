import TypedSettings.Number.Decimal

/-!
# Conversion errors

Why the text of an override could not be converted, always with the name of the setting it was
for.
-/

namespace TypedSettings

/-- `HookContractReason`: why a hook cannot be called. -/
inductive SignatureFault where
  | parameterCount
  | untypedParameter
deriving DecidableEq

def SignatureFault.message : SignatureFault → String
  | parameterCount => "Expected a single parameter."
  | untypedParameter => "Expected a type hint for the parameter."

/-- `ConfigurationError`: why the text of an override could not be converted. -/
inductive ConversionError where
  | mismatch (setting raw expected : String)
  | signature (setting typeName : String) (fault : SignatureFault)
  | decimal (setting raw : String) (cause : DecimalError)
deriving DecidableEq

namespace ConversionError

def setting : ConversionError → String
  | mismatch setting _ _ => setting
  | signature setting _ _ => setting
  | decimal setting _ _ => setting

/-- `ConfigurationError::raw_value`: the text of the override, where the error depends on it. -/
def raw? : ConversionError → Option String
  | mismatch _ raw _ => some raw
  | signature _ _ _ => none
  | decimal _ raw _ => some raw

/-- `ConfigurationError::expected_type`: the type that was expected, where the text has another.
-/
def expected? : ConversionError → Option String
  | mismatch _ _ expected => some expected
  | _ => none

def message : ConversionError → String
  | mismatch setting raw expected =>
    "Invalid type for " ++ setting ++ " with configured value '" ++ raw ++ "'. Expected " ++
      expected ++ "."
  | signature _ typeName fault =>
    "Invalid method signature for " ++ typeName ++ ". " ++ fault.message
  | decimal setting raw cause =>
    "Invalid decimal for " ++ setting ++ " with configured value '" ++ raw ++ "': " ++
      cause.message

end ConversionError

end TypedSettings
