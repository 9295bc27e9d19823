import TypedSettings.Conversion.Error
import TypedSettings.Types.Parser

/-!
# Errors

Everything that can go wrong between a definition and the value of a setting.
-/

namespace TypedSettings

/-- `EnvcastError`: what went wrong. -/
inductive SettingsError where
  | configuration (detail : String)
  | conversion (e : ConversionError)
  | typeExpression (e : SettingType.Error)
  | unknownSetting (name : String)
  | serialization (detail : String)
  | io (detail : String)
deriving DecidableEq

namespace SettingsError

def message : SettingsError → String
  | configuration detail => "Configuration error: " ++ detail
  | conversion e => e.message
  | typeExpression e => "Type annotation error: " ++ e.message
  | unknownSetting name => "Settings has no setting '" ++ name ++ "'"
  | serialization detail => "Serialization error: " ++ detail
  | io detail => "I/O error: " ++ detail

/-- `ResultExt::context`: the error with what was being done when it arose. -/
def within (context : String) (e : SettingsError) : SettingsError :=
  configuration (context ++ ": " ++ e.message)

theorem message_within (context : String) (e : SettingsError) :
    (e.within context).message = "Configuration error: " ++ (context ++ ": " ++ e.message) := rfl

end SettingsError

end TypedSettings
