import TypedSettings.Error
import TypedSettings.Types.Registry

/-!
# Definitions

A definition declares settings: each has a default, perhaps an annotation, and the type that the
annotation or else the default gives it. Main statements: a definition has the names of its
declarations (`names_build`), every one of them a setting name (`isSettingName_of_build`).
-/

namespace TypedSettings

variable [Payloads]

/-- `is_setting_name`: an upper-case letter, then upper-case letters, digits and underscores,
all of them ASCII. -/
def isSettingName (name : String) : Bool :=
  match name.toList with
  | [] => false
  | c :: r => c.isUpper && r.all fun c => c.isUpper || c.isDigit || c == '_'

/-- `PendingSetting`: what is declared of one setting. -/
structure Declaration where
  default : Value
  annotation? : Option String

namespace Declaration

/-- `DefinitionBuilder::default`: a setting that takes its type from its default. -/
def ofDefault (default : Value) : Declaration := ⟨default, none⟩

/-- `DefinitionBuilder::annotated`: a setting with a default and an annotation. -/
def annotated (default : Value) (expression : String) : Declaration := ⟨default, some expression⟩

/-- `DefinitionBuilder::declared`: a setting with an annotation and no default. -/
def ofType (expression : String) : Declaration := ⟨.absent, some expression⟩

end Declaration

/-- `SettingSpec`: one declared setting. -/
structure Setting where
  default : Value
  annotation? : Option String
  type : SettingType

/-- `SettingsDefinition`: the declared settings by name. -/
abbrev Definition := Table Setting

namespace Definition

/-- `infer_descriptor`: the type that a default gives. A value of a user-defined type has the
type that is registered under its name, if there is one. -/
def inferred (registry : Registry) : Value → SettingType
  | .custom c => (registry.resolve c.typeName).getD (.ofDefault (.custom c))
  | v => .ofDefault v

def typeOf (registry : Registry) (d : Declaration) : Except SettingType.Error SettingType :=
  match d.annotation? with
  | some expression => SettingType.parse registry expression
  | none => .ok (inferred registry d.default)

def badName (name : String) : SettingsError :=
  .configuration ("Invalid setting name '" ++ name ++ "'. Setting names must be uppercase")

/-- One declared setting; its name is looked at first. -/
def settingOf (registry : Registry) (name : String) (d : Declaration) :
    Except SettingsError Setting :=
  if isSettingName name then
    match typeOf registry d with
    | .ok type => .ok ⟨d.default, d.annotation?, type⟩
    | .error e => .error (.typeExpression e)
  else .error (badName name)

/-- `DefinitionBuilder::build`: the settings of a table of declarations, or what is wrong with
the first that is wrong. -/
def build (registry : Registry) : Table Declaration → Except SettingsError Definition
  | [] => .ok []
  | (name, d) :: ds =>
    match settingOf registry name d with
    | .error e => .error e
    | .ok setting =>
      match build registry ds with
      | .error e => .error e
      | .ok settings => .ok ((name, setting) :: settings)

/-- The settings of a series of declarations, a later one replacing an earlier one of its name. -/
def ofDeclarations (registry : Registry) (ds : List (String × Declaration)) :
    Except SettingsError Definition :=
  build registry (Table.ofEntries ds)

theorem build_cons_eq_ok {registry : Registry} {name : String} {d : Declaration}
    {ds : Table Declaration} {definition : Definition} :
    build registry ((name, d) :: ds) = .ok definition ↔
      ∃ setting settings, settingOf registry name d = .ok setting ∧
        build registry ds = .ok settings ∧ definition = (name, setting) :: settings := by
  simp only [build]
  split
  · rename_i h
    simp [h]
  · rename_i setting h
    split
    · rename_i h'
      simp [h']
    · rename_i settings h'
      simp [h, h', eq_comm]

theorem names_build {registry : Registry} {ds : Table Declaration} {definition : Definition}
    (h : build registry ds = .ok definition) : definition.names = ds.names := by
  induction ds generalizing definition with
  | nil =>
    cases h
    rfl
  | cons d ds ih =>
    obtain ⟨_, settings, _, hs, rfl⟩ := build_cons_eq_ok.1 h
    have := ih hs
    simp_all [Table.names]

theorem isSettingName_of_build {registry : Registry} {ds : Table Declaration}
    {definition : Definition} (h : build registry ds = .ok definition) :
    ∀ name ∈ definition.names, isSettingName name = true := by
  induction ds generalizing definition with
  | nil =>
    cases h
    simp [Table.names]
  | cons d ds ih =>
    obtain ⟨setting, settings, hd, hs, rfl⟩ := build_cons_eq_ok.1 h
    intro name hn
    simp only [Table.names, List.map_cons, List.mem_cons] at hn
    rcases hn with rfl | hn
    · unfold settingOf at hd
      split at hd
      · assumption
      · cases hd
    · exact ih hs name (by simpa [Table.names] using hn)

end Definition

end TypedSettings
