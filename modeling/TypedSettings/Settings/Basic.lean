import TypedSettings.Conversion.Basic
import TypedSettings.Definition.Basic
import TypedSettings.Environment.Basic

/-!
# Settings

Declared settings with the environment's overrides applied. A value is looked for when it is first
asked for, and kept until the settings are told to forget. Main statements: what asking for a
setting answers and keeps (`get_fst`, `find?_get`), and that a failure keeps nothing
(`get_snd_of_error`).
-/

namespace TypedSettings

variable [Payloads]

/-- Settings of a definition. The variable that overrides a setting is named by the prefix and the
setting's name; the values found so far are kept. -/
structure Settings where
  definition : Definition
  variablePrefix : String
  kept : Table Value := []

namespace Settings

/-- `Settings::env_var_name`: the variable that overrides a setting. -/
def variableOf (s : Settings) (name : String) : String := s.variablePrefix ++ name

def isOverridden (s : Settings) (env : Environment) (name : String) : Bool :=
  (env (s.variableOf name)).isSome

def declares (s : Settings) (name : String) : Bool := s.definition.has name

def typeOf? (s : Settings) (name : String) : Option SettingType :=
  (s.definition.find? name).map (·.type)

/-- `Settings::resolve`: the override, converted if the setting is declared, or else the
default. -/
def resolve (s : Settings) (env : Environment) (name : String) : Except SettingsError Value :=
  match env (s.variableOf name), s.definition.find? name with
  | some raw, some setting =>
    match convert name setting.type raw with
    | .ok v => .ok v
    | .error e => .error (.conversion e)
  | some raw, none => .ok (.str raw)
  | none, some setting => .ok setting.default
  | none, none => .error (.unknownSetting name)

/-- `Settings::get`: the value that is kept, or else the one in the environment, which is kept
from then on. -/
def get (s : Settings) (env : Environment) (name : String) :
    Except SettingsError Value × Settings :=
  match s.kept.find? name with
  | some v => (.ok v, s)
  | none =>
    match s.resolve env name with
    | .ok v => (.ok v, { s with kept := s.kept.insert name v })
    | .error e => (.error e, s)

/-- Asks for settings one after the other, up to the first failure. -/
def getEach (s : Settings) (env : Environment) : List String → Except SettingsError Unit × Settings
  | [] => (.ok (), s)
  | name :: names =>
    match s.get env name with
    | (.ok _, s) => getEach s env names
    | (.error e, s) => (.error e, s)

/-- `Settings::load_all`: asks for every declared setting in order, up to the first failure. -/
def getAll (s : Settings) (env : Environment) : Except SettingsError Unit × Settings :=
  s.getEach env s.definition.names

/-- Asks for settings one after the other, past failures, and gives every answer. -/
def answersOf (s : Settings) (env : Environment) :
    List String → List (String × Except SettingsError Value)
  | [] => []
  | name :: names => (name, (s.get env name).1) :: answersOf (s.get env name).2 env names

def answers (s : Settings) (env : Environment) : List (String × Except SettingsError Value) :=
  s.answersOf env s.definition.names

/-- `Settings::clear_cache`: forgets the values that are kept. -/
def forget (s : Settings) : Settings := { s with kept := [] }

/-! ## Values of one kind -/

/-- `wrong_shape`: what is reported of a value of another kind. -/
def wrongKind (name kind : String) (v : Value) : SettingsError :=
  .configuration ("Setting '" ++ name ++ "' holds a " ++ v.typeName ++ " value, not " ++ kind)

/-- A view of the value of a setting. A value of another kind is kept all the same. -/
def getAs {α : Type} (kind : String) (view : Value → Option α) (s : Settings) (env : Environment)
    (name : String) : Except SettingsError α × Settings :=
  match s.get env name with
  | (.error e, s) => (.error e, s)
  | (.ok v, s) =>
    match view v with
    | some a => (.ok a, s)
    | none => (.error (wrongKind name kind v), s)

def getBool : Settings → Environment → String → Except SettingsError Bool × Settings :=
  getAs "bool" Value.bool?

def getInt : Settings → Environment → String → Except SettingsError Int64 × Settings :=
  getAs "int" Value.int?

def getFloat : Settings → Environment → String → Except SettingsError Float × Settings :=
  getAs "float" Value.float?

def getStr : Settings → Environment → String → Except SettingsError String × Settings :=
  getAs "str" Value.str?

/-! ## Laws -/

theorem get_fst (s : Settings) (env : Environment) (name : String) :
    (s.get env name).1 =
      match s.kept.find? name with
      | some v => .ok v
      | none => s.resolve env name := by
  unfold get
  split
  · rfl
  · split <;> simp_all

theorem get_snd_of_error {s : Settings} {env : Environment} {name : String} {e : SettingsError}
    (h : (s.get env name).1 = .error e) : (s.get env name).2 = s := by
  unfold get at h ⊢
  split at h
  · cases h
  · split at h
    · cases h
    · rfl

theorem find?_get {s : Settings} {env : Environment} {name : String} {v : Value}
    (h : (s.get env name).1 = .ok v) (other : String) :
    (s.get env name).2.kept.find? other =
      if name = other then some v else s.kept.find? other := by
  unfold get at h ⊢
  split at h
  · rename_i hk
    cases h
    by_cases hn : name = other
    · subst hn
      simp [hk]
    · simp [hn]
  · rename_i hk
    split at h
    · rename_i hr
      cases h
      simp [Table.find?_insert]
    · cases h

theorem answersOf_names (s : Settings) (env : Environment) (names : List String) :
    (s.answersOf env names).map (·.1) = names := by
  induction names generalizing s with
  | nil => rfl
  | cons name names ih => simp [answersOf, ih]

end Settings

end TypedSettings
