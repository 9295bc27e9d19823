import TypedSettings.Error
import TypedSettings.Text.Blank
import TypedSettings.Value.Json

/-!
# Logging

The level and the place of log records, as they are asked for in texts, and the checks before
logging starts. Main statement: a configuration passes exactly if its rotation is known and its
directory is named where one is needed (`validate_eq_ok_iff`).
-/

namespace TypedSettings

/-- How much is logged. -/
inductive LogLevel where
  | trace
  | debug
  | info
  | warn
  | error
deriving DecidableEq

/-- `parse_log_level`: the level that a text names, in any case. -/
def LogLevel.ofText (text : String) : Option LogLevel :=
  match String.ofList (text.toList.map Char.toLower) with
  | "trace" => some trace
  | "debug" => some debug
  | "info" => some info
  | "warn" => some warn
  | "error" => some error
  | _ => none

def LogLevel.unknown (text : String) : SettingsError :=
  .configuration
    ("Invalid log level: " ++ text ++ ". Must be one of: trace, debug, info, warn, error")

/-- Whether log records go to files, in which directory, and how often a new file is begun. -/
structure LoggingConfig where
  localEnabled : Bool := false
  localPath : String := "./logs"
  localRotation : String := "daily"
deriving DecidableEq

namespace LoggingConfig

def rotations : List String := ["daily", "hourly", "never"]

inductive Refusal where
  | rotation (given : String)
  | emptyPath
deriving DecidableEq

def Refusal.message : Refusal → String
  | rotation given =>
    "Invalid logging.local_rotation '" ++ given ++ "'. Must be one of: " ++
      ", ".intercalate rotations
  | emptyPath => "logging.local_path cannot be empty when local logging is enabled"

/-- `LoggingConfig::validate`: the rotation is looked at first. -/
def validate (config : LoggingConfig) : Except Refusal Unit :=
  if config.localRotation ∉ rotations then .error (.rotation config.localRotation)
  else if config.localEnabled ∧ Text.isBlankText config.localPath then .error .emptyPath
  else .ok ()

def toJson (config : LoggingConfig) : Json :=
  .object [("local_enabled", .bool config.localEnabled), ("local_path", .str config.localPath),
    ("local_rotation", .str config.localRotation)]

/-- The truth value in a place, or the usual one if the place is missing. -/
def boolOr (usual : Bool) : Option Json → Option Bool
  | none => some usual
  | some (.bool b) => some b
  | some _ => none

/-- The text in a place, or the usual one if the place is missing. -/
def strOr (usual : String) : Option Json → Option String
  | none => some usual
  | some (.str s) => some s
  | some _ => none

/-- The configuration of the three fields, where they are given. -/
def ofFields (enabled path rotation : Option Json) : Option LoggingConfig := do
  let usual : LoggingConfig := {}
  return ⟨← boolOr usual.localEnabled enabled, ← strOr usual.localPath path,
    ← strOr usual.localRotation rotation⟩

/-- The configuration that a JSON document holds: an object of the fields, in which others may
stand too, or an array of the fields in order. Fields that are missing are as usual. -/
def ofJson : Json → Option LoggingConfig
  | .object members =>
    ofFields (members.lookup "local_enabled") (members.lookup "local_path")
      (members.lookup "local_rotation")
  | .array items =>
    if items.length ≤ 3 then ofFields items[0]? items[1]? items[2]? else none
  | _ => none

theorem validate_eq_ok_iff (config : LoggingConfig) :
    config.validate = .ok () ↔
      config.localRotation ∈ rotations ∧
        (config.localEnabled = true → Text.isBlankText config.localPath = false) := by
  unfold validate
  split
  · rename_i h
    simp [h]
  · rename_i h
    split
    · rename_i h'
      simp [h'.1, h'.2]
    · rename_i h'
      simp_all

end LoggingConfig

/-- What `init_logging` checks before it does anything: the level, then the configuration. -/
def checkLogging (level : String) (config : LoggingConfig) : Except SettingsError LogLevel :=
  match LogLevel.ofText level with
  | none => .error (LogLevel.unknown level)
  | some found =>
    match config.validate with
    | .ok () => .ok found
    | .error refusal =>
      .error (.configuration ("Logging configuration invalid: " ++ refusal.message))

end TypedSettings
