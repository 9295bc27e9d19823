import TypedSettings.CommandLine.Grammar
import TypedSettings.Environment.Basic
import TypedSettings.Logging
import TypedSettings.Settings.Options

/-!
# Invocations

What a command line asks for: a command and the options that hold for all commands, which may stand
before or after the command's name. An option that is not given has the value of its variable. Main
statement: what stands after the name goes before what stands in front of it, and both go before
the variable (`globalValue_eq`).
-/

namespace TypedSettings.CommandLine

/-- `Commands`: what is to be done. -/
inductive Command where
  /-- Print the value of a setting. -/
  | get (name : String) (json : Bool)
  /-- Print all settings. -/
  | list (json : Bool)
  /-- Report all settings that have no value. -/
  | check
  /-- Convert a text to a type. -/
  | convert (expression name raw : String) (json : Bool)
  /-- Write a definition to start with. -/
  | init (path : String) (force : Bool)

/-- `Cli`: a command with the options that hold for all commands. -/
structure Invocation where
  definition? : Option String
  variablePrefix : String
  logLevel : String
  logDirectory? : Option String
  logRotation : String
  command : Command

/-- An option that holds for all commands, and its variable. -/
structure GlobalOption where
  option : ValueOption
  variableName : String

namespace GlobalOption

/-- Where the definition file is. -/
def definition : GlobalOption := ⟨⟨"definition", some 'd', false⟩, SettingsOptions.fileVariable⟩

def variablePrefix : GlobalOption := ⟨⟨"prefix", none, true⟩, SettingsOptions.prefixVariable⟩

def logLevel : GlobalOption := ⟨⟨"log-level", some 'l', true⟩, "ENVCAST_LOG_LEVEL"⟩

def logDirectory : GlobalOption := ⟨⟨"log-dir", none, false⟩, "ENVCAST_LOG_DIR"⟩

/-- How often a new log file is begun. -/
def logRotation : GlobalOption := ⟨⟨"log-rotation", none, true⟩, "ENVCAST_LOG_ROTATION"⟩

def all : List GlobalOption := [definition, variablePrefix, logLevel, logDirectory, logRotation]

end GlobalOption

/-- What may be given in front of the name of a command. -/
def outerGrammar : Grammar := ⟨GlobalOption.all.map (·.option), [], 0, true, true⟩

/-- What may be given after the name of a command. -/
def grammarOf (options : List ValueOption) (flags : List String) (places : Nat) : Grammar :=
  ⟨options ++ GlobalOption.all.map (·.option), flags, places, false, false⟩

def commandGrammar? (name : String) : Option Grammar :=
  match name with
  | "get" => some (grammarOf [] ["json"] 1)
  | "show" => some (grammarOf [] ["json"] 0)
  | "check" => some (grammarOf [] [] 0)
  | "convert" =>
    some (grammarOf [⟨"type", some 't', true⟩, ⟨"name", some 'n', true⟩] ["json"] 1)
  | "init" => some (grammarOf [⟨"output", some 'o', true⟩] ["force"] 0)
  | _ => none

/-- The command of a name with what was given to it, if all that it needs was given. -/
def commandOf? (name : String) (given : Given) : Option Command :=
  match name, given.places with
  | "get", [setting] => some (.get setting (given.hasFlag "json"))
  | "show", [] => some (.list (given.hasFlag "json"))
  | "check", [] => some .check
  | "convert", [raw] =>
    (given.value? "type").map fun expression =>
      .convert expression ((given.value? "name").getD "VALUE") raw (given.hasFlag "json")
  | "init", [] =>
    some (.init ((given.value? "output").getD "settings.toml") (given.hasFlag "force"))
  | _, _ => none

/-- Whether the variable of an option is looked at in vain: it holds nothing where something is
needed, and the option was not given on both sides of the command. -/
def GlobalOption.isVoid (o : GlobalOption) (env : Environment) (outer inner : Given) : Bool :=
  env o.variableName == some "" && !o.option.mayBeEmpty &&
    ((outer.value? o.option.name).isNone || (inner.value? o.option.name).isNone)

def globalValue (o : GlobalOption) (env : Environment) (outer inner : Given) :
    Except Stop (Option String) :=
  if o.isVoid env outer inner then .error .usage
  else
    .ok ((inner.value? o.option.name).or
      ((outer.value? o.option.name).or (env o.variableName)))

/-- `Cli::parse`: what the arguments ask for. -/
def Invocation.ofArguments (env : Environment) (args : List String) : Except Stop Invocation := do
  let (outer, rest) ← read outerGrammar {} none args
  match rest with
  | [] => .error .usage
  | name :: rest =>
    if name = "help" then .error .help
    else
      match commandGrammar? name with
      | none => .error .usage
      | some grammar => do
        let (inner, _) ← read grammar {} none rest
        let value (o : GlobalOption) := globalValue o env outer inner
        let definition? ← value .definition
        let variablePrefix ← value .variablePrefix
        let logLevel ← value .logLevel
        let logDirectory? ← value .logDirectory
        let logRotation ← value .logRotation
        match commandOf? name inner with
        | none => .error .usage
        | some command =>
          return {
            definition?
            variablePrefix := variablePrefix.getD SettingsOptions.defaultPrefix
            logLevel := logLevel.getD "warn"
            logDirectory?
            logRotation := logRotation.getD "daily"
            command }

/-- `Cli::logging_config`: file logging is off without a directory for it. -/
def Invocation.logging (i : Invocation) : LoggingConfig :=
  let usual : LoggingConfig := {}
  ⟨i.logDirectory?.isSome, i.logDirectory?.getD usual.localPath, i.logRotation⟩

theorem globalValue_eq {o : GlobalOption} (h : o.option.mayBeEmpty = true) (env : Environment)
    (outer inner : Given) :
    globalValue o env outer inner =
      .ok ((inner.value? o.option.name).or
        ((outer.value? o.option.name).or (env o.variableName))) := by
  simp [globalValue, GlobalOption.isVoid, h]

end TypedSettings.CommandLine
