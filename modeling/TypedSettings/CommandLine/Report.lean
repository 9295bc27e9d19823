import TypedSettings.CommandLine.Invocation
import TypedSettings.CommandLine.Sample
import TypedSettings.Environment.File

/-!
# Reports

What each command prints, and the status that it ends with. Main statements: listing and checking
end well exactly if every answer is a value (`exit_check_eq_zero_iff`, `exit_list_eq_zero_iff`).
-/

namespace TypedSettings.CommandLine

variable [Payloads]

/-- What a command ends with: a status, what it prints, and what it prints as a complaint. -/
structure Outcome where
  exit : Nat
  output : String
  complaint : String := ""
deriving DecidableEq

def success : Nat := 0

/-- The status of wrong usage and of wrong settings. -/
def failure : Nat := 2

/-- The status of a system that does not do what is needed. -/
def systemFailure : Nat := 5

def textOf (lines : List String) : String := String.join (lines.map (· ++ "\n"))

def Outcome.ofLines (exit : Nat) (lines : List String) : Outcome := ⟨exit, textOf lines, ""⟩

/-! ## Values -/

/-- `exit_code_for`: the status of a setting that has no value. -/
def exitOf : SettingsError → Nat
  | .io _ => systemFailure
  | _ => failure

def valueText (json : Bool) (v : Value) : String :=
  if json then v.toJson.compact else v.render

/-- `GetArgs::execute`: the report of one setting. -/
def getReport (s : Settings) (env : Environment) (name : String) (json : Bool) : Outcome :=
  match (s.get env name).1 with
  | .ok v => .ofLines success [valueText json v]
  | .error e => .ofLines (exitOf e) ["❌ " ++ e.message]

/-- `ConvertArgs::execute`: the report of a conversion. -/
def convertReport (registry : Registry) (expression name raw : String) (json : Bool) : Outcome :=
  match SettingType.parse registry expression with
  | .error e => .ofLines failure ["❌ " ++ e.message]
  | .ok type =>
    match convert name type raw with
    | .ok v => .ofLines success [valueText json v]
    | .error e => .ofLines failure ["❌ " ++ e.message]

/-! ## All settings -/

def failuresOf (answers : List (String × Except SettingsError Value)) :
    List (String × SettingsError) :=
  answers.filterMap fun a =>
    match a.2 with
    | .ok _ => none
    | .error e => some (a.1, e)

/-- The status after these answers. -/
def exitAfter (answers : List (String × Except SettingsError Value)) : Nat :=
  if (failuresOf answers).isEmpty then success else failure

def typeText (s : Settings) (name : String) : String :=
  ((s.typeOf? name).map SettingType.render).getD ""

/-- The line of a list of settings for one answer. -/
def listLine (s : Settings) (env : Environment) (answer : String × Except SettingsError Value) :
    String :=
  let start := answer.1 ++ ": " ++ typeText s answer.1 ++ " = "
  match answer.2 with
  | .ok v => start ++ v.render ++ if s.isOverridden env answer.1 then " (env)" else ""
  | .error e => start ++ "❌ " ++ e.message

/-- The member of a JSON list of settings for one answer. -/
def listMember (s : Settings) (env : Environment) (answer : String × Except SettingsError Value) :
    String × Json :=
  match answer.2 with
  | .ok v =>
    (answer.1, .object [("type", .str (typeText s answer.1)), ("value", v.toJson),
      ("overridden", .bool (s.isOverridden env answer.1))])
  | .error e =>
    (answer.1, .object [("type", .str (typeText s answer.1)), ("error", .str e.message)])

/-- `ShowArgs::execute`: the list of settings. -/
def listReport (s : Settings) (env : Environment) (json : Bool) : Outcome :=
  let answers := s.answers env
  .ofLines (exitAfter answers)
    (if json then [(Json.object (answers.map (listMember s env))).sorted.pretty]
    else answers.map (listLine s env))

/-- The lines of a check for one failure. -/
def failureLines (f : String × SettingsError) : List String :=
  ["❌ " ++ f.1, "   Error: " ++ f.2.message]

/-- `CheckArgs::execute`: the report of a check. -/
def checkReport (s : Settings) (env : Environment) : Outcome :=
  let count := toString s.definition.length
  let failures := failuresOf (s.answers env)
  .ofLines (exitAfter (s.answers env))
    (["🔍 Checking " ++ count ++ " settings", ""] ++
      if failures.isEmpty then ["✅ All settings resolved"]
      else
        failures.flatMap failureLines ++
          ["", toString failures.length ++ " of " ++ count ++ " settings failed"])

/-! ## Files -/

/-- The report where no definition file is named. -/
def noDefinition : Outcome :=
  .ofLines failure ["❌ " ++ SettingsOptions.noFile,
    "   Use --definition or set " ++ SettingsOptions.fileVariable]

/-- The report of a definition that cannot be loaded. -/
def badDefinition (e : SettingsError) : Outcome :=
  .ofLines failure ["❌ Failed to load settings definition", "   Error: " ++ e.message]

/-- The first lines of the report on a new definition file. -/
def initStart : List String := ["📝 Initializing settings definition", ""]

/-- The report of a definition file that is there already. -/
def initRefused (path : String) : Outcome :=
  .ofLines failure (initStart ++ ["❌ Definition file already exists: " ++ path,
    "   Use --force to overwrite"])

def initDone (path : String) : Outcome :=
  .ofLines success (initStart ++ ["✅ Definition file created: " ++ path, "", "Next steps:",
    "  1. Edit " ++ path ++ " with your settings",
    "  2. Point envcast at it: export ENVCAST_SETTINGS_FILE=" ++ path,
    "  3. Override a setting: export ENVCAST_PORT=8080",
    "  4. Check every setting resolves: envcast check", ""])

def initFailed (fault : FileFault) : Outcome :=
  .ofLines systemFailure (initStart ++ ["❌ Failed to write definition file",
    "   Error: " ++ fault.message])

/-! ## Arguments -/

def usageText : String := textOf [
  "Usage: envcast [OPTIONS] <COMMAND>",
  "",
  "Commands: get <NAME> [--json] | show [--json] | check",
  "          convert -t <TYPE> [-n <NAME>] [--json] <VALUE> | init [-o <FILE>] [--force]",
  "Options:  -d <FILE> | --prefix <PREFIX> | -l <LEVEL> | --log-dir <DIR> | --log-rotation <WHEN>"]

/-- The outcome where there is no invocation. -/
def Stop.outcome : Stop → Outcome
  | usage => ⟨failure, "", usageText⟩
  | help => ⟨success, usageText, ""⟩
  | version => .ofLines success ["envcast 0.3.0"]

def noLogging (e : SettingsError) : Outcome :=
  ⟨systemFailure, "", textOf ["Failed to initialize logging: " ++ e.message]⟩

/-! ## Laws -/

theorem failuresOf_eq_nil_iff {answers : List (String × Except SettingsError Value)} :
    failuresOf answers = [] ↔ ∀ a ∈ answers, ∃ v, a.2 = .ok v := by
  simp only [failuresOf, List.filterMap_eq_nil_iff]
  refine forall₂_congr fun a _ => ?_
  cases a.2 <;> simp

theorem exitAfter_eq_zero_iff {answers : List (String × Except SettingsError Value)} :
    exitAfter answers = 0 ↔ ∀ a ∈ answers, ∃ v, a.2 = .ok v := by
  rw [← failuresOf_eq_nil_iff]
  unfold exitAfter
  split
  · rename_i h
    simpa [success] using h
  · rename_i h
    simpa [failure] using h

theorem exit_check_eq_zero_iff (s : Settings) (env : Environment) :
    (checkReport s env).exit = 0 ↔ ∀ a ∈ s.answers env, ∃ v, a.2 = .ok v :=
  exitAfter_eq_zero_iff

theorem exit_list_eq_zero_iff (s : Settings) (env : Environment) (json : Bool) :
    (listReport s env json).exit = 0 ↔ ∀ a ∈ s.answers env, ∃ v, a.2 = .ok v :=
  exitAfter_eq_zero_iff

end TypedSettings.CommandLine
