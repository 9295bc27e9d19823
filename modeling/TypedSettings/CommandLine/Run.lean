import TypedSettings.CommandLine.Report

/-!
# Running a command line

The program as a function of the arguments and the environment, over any file system: variables are
proposed by a file, logging is checked, and the command is run. Main statement: conversions look at
no file (`runCommand_convert`).
-/

namespace TypedSettings.CommandLine

variable [Payloads]

variable {m : Type → Type} [Monad m]

def variableFile : String := ".env"

/-- The environment with the variables that the file proposes, if there is one. -/
def proposeVariables (files : Files m) (env : Environment) : m Environment := do
  match ← files.read variableFile with
  | .ok content => return env.proposeFile content
  | .error _ => return env

/-- `open_settings`: reports on the settings that an invocation names. Their values are looked
up one by one. -/
def withSettings (files : Files m) (env : Environment) (i : Invocation)
    (report : Settings → Outcome) : m Outcome := do
  match i.definition? with
  | none => return noDefinition
  | some path =>
    let registry := Registry.ofVariable (env Registry.capabilityVariable)
    match ← Settings.load files registry env env ⟨path, i.variablePrefix, .lazy⟩ with
    | .error e => return badDefinition e
    | .ok settings => return report settings

/-- `InitArgs::execute`: writes a definition to start with. -/
def initDefinition (files : Files m) (path : String) (force : Bool) : m Outcome := do
  if !force && (← files.present path) then return initRefused path
  else
    match ← files.write path sampleDefinition with
    | .ok () => return initDone path
    | .error fault => return initFailed fault

/-- `execute_command`: runs the command of an invocation. -/
def runCommand (files : Files m) (env : Environment) (i : Invocation) : m Outcome :=
  match i.command with
  | .get name json => withSettings files env i fun s => getReport s env name json
  | .list json => withSettings files env i fun s => listReport s env json
  | .check => withSettings files env i fun s => checkReport s env
  | .convert expression name raw json =>
    pure (convertReport (.ofVariable (env Registry.capabilityVariable)) expression name raw json)
  | .init path force => initDefinition files path force

def noLogDirectory (path : String) (fault : FileFault) : SettingsError :=
  .configuration ("Failed to create log directory " ++ path ++ ": " ++ fault.message)

/-- `init_logging`: the level and the configuration are checked, and the directory for log files
is made if it is needed. -/
def startLogging (files : Files m) (i : Invocation) : m (Except SettingsError Unit) := do
  match checkLogging i.logLevel i.logging with
  | .error e => return .error e
  | .ok _ =>
    if i.logging.localEnabled then
      match ← files.makeDirectories i.logging.localPath with
      | .ok () => return .ok ()
      | .error fault => return .error (noLogDirectory i.logging.localPath fault)
    else return .ok ()

/-- `main`: variables are proposed first, then the arguments are read, then logging starts. -/
def run (files : Files m) (env : Environment) (args : List String) : m Outcome := do
  let env ← proposeVariables files env
  match Invocation.ofArguments env args with
  | .error stop => return stop.outcome
  | .ok i =>
    match ← startLogging files i with
    | .error e => return noLogging e
    | .ok () => runCommand files env i

theorem runCommand_convert (files : Files m) (env : Environment) (i : Invocation)
    {expression name raw : String} {json : Bool}
    (h : i.command = .convert expression name raw json) :
    runCommand files env i =
      pure (convertReport (.ofVariable (env Registry.capabilityVariable)) expression name raw
        json) := by
  simp [runCommand, h]

end TypedSettings.CommandLine
