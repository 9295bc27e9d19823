import TypedSettings.Definition.Basic
import TypedSettings.Definition.Reference
import TypedSettings.Files
import TypedSettings.Toml.Parser

/-!
# Definition documents

A definition is written in TOML: the table of defaults and the table of type annotations. Both may
hold keys that are no setting names, which declare nothing, and the document may hold other tables.
Main statement: a setting is declared by a setting name in one of the two tables and by nothing else
(`mem_declarations`).
-/

namespace TypedSettings.Definition

variable [Payloads]

/-- `DefinitionFile`: the two tables of a definition. -/
structure Document where
  defaults : Table Toml
  annotations : Table String

/-- Why a text is no definition document. -/
inductive DocumentFault where
  | notToml (e : Toml.Error)
  | notTable (key : String)
  | notText (key : String)

def DocumentFault.message : DocumentFault → String
  | notToml e => e.message
  | notTable key => "'" ++ key ++ "' is not a table"
  | notText key => "'" ++ key ++ "' is not a string"

def DocumentFault.error (fault : DocumentFault) : SettingsError :=
  .configuration ("Failed to parse TOML: " ++ fault.message)

/-- A table of the document, empty if there is none. A date-time in its place declares nothing. -/
def tableOf (key : String) (document : Table Toml) : Except DocumentFault (Table Toml) :=
  match document.find? key with
  | none => .ok []
  | some (.table entries) => .ok entries
  | some (.dateTime _) => .ok []
  | some _ => .error (.notTable key)

/-- The texts of a table that holds nothing else. -/
def textsOf : Table Toml → Except DocumentFault (Table String)
  | [] => .ok []
  | (key, .text s) :: rest =>
    match textsOf rest with
    | .ok texts => .ok ((key, s) :: texts)
    | .error fault => .error fault
  | (key, _) :: _ => .error (.notText key)

/-- The tables of a definition from a TOML table. -/
def Document.ofToml (table : Table Toml) : Except DocumentFault Document :=
  match tableOf "defaults" table, tableOf "types" table with
  | .error fault, _ => .error fault
  | _, .error fault => .error fault
  | .ok defaults, .ok types =>
    match textsOf types with
    | .ok annotations => .ok ⟨defaults, annotations⟩
    | .error fault => .error fault

def Document.parse (text : String) : Except DocumentFault Document :=
  match Toml.parse text with
  | .ok table => ofToml table
  | .error e => .error (.notToml e)

/-- What a document declares: a setting for every default, with its annotation if it has one, and a
setting for every annotation without a default. -/
def Document.declarations (document : Document) : List (String × Declaration) :=
  (document.defaults.filter fun e => isSettingName e.1).map
      (fun e => (e.1, ⟨e.2.toValue, document.annotations.find? e.1⟩)) ++
    (document.annotations.filter fun e => isSettingName e.1 && !document.defaults.has e.1).map
      (fun e => (e.1, .ofType e.2))

def missingVariables (names : List String) : SettingsError :=
  .configuration ("Missing required environment variables: " ++ ", ".intercalate names)

/-- `parse_definition`: the definition that a text writes, with its references to the
environment replaced. -/
def parse (registry : Registry) (env : Environment) (text : String) :
    Except SettingsError Definition :=
  match Reference.resolve env text with
  | .error names => .error (missingVariables names)
  | .ok text =>
    match Document.parse text with
    | .error fault => .error fault.error
    | .ok document => ofDeclarations registry document.declarations

def fileNotFound (path : String) : SettingsError :=
  .configuration ("Settings file not found: " ++ path)

def fileUnreadable (path : String) (fault : FileFault) : SettingsError :=
  (SettingsError.io fault.message).within ("Failed to read settings file " ++ path)

/-- `load_definition`: the definition in a file. -/
def load {m : Type → Type} [Monad m] (files : Files m) (registry : Registry) (env : Environment)
    (path : String) : m (Except SettingsError Definition) := do
  if ← files.present path then
    match ← files.readText path with
    | .ok text => return parse registry env text
    | .error fault => return .error (fileUnreadable path fault)
  else return .error (fileNotFound path)

theorem mem_declarations {document : Document} {name : String} :
    name ∈ document.declarations.map (·.1) ↔
      isSettingName name = true ∧
        (name ∈ document.defaults.names ∨ name ∈ document.annotations.names) := by
  have has_iff : ∀ (t : Table Toml) (name : String), t.has name = true ↔ name ∈ t.names := by
    intro t name
    induction t with
    | nil => simp [Table.has, Table.names, Table.find?_nil]
    | cons e t ih =>
      simp only [Table.has, Table.find?_cons, Table.names, List.map_cons, List.mem_cons] at ih ⊢
      by_cases h : e.1 = name
      · simp [h]
      · simp [h, ih, Ne.symm h]
  simp only [Document.declarations, List.map_append, List.map_map, List.mem_append, List.mem_map,
    List.mem_filter, Function.comp_apply, Table.names, Bool.and_eq_true, Bool.not_eq_true']
  constructor
  · rintro (⟨e, ⟨he, hn⟩, rfl⟩ | ⟨e, ⟨he, hn, _⟩, rfl⟩)
    · exact ⟨hn, .inl ⟨e, he, rfl⟩⟩
    · exact ⟨hn, .inr ⟨e, he, rfl⟩⟩
  · rintro ⟨hn, ⟨e, he, rfl⟩ | ⟨e, he, rfl⟩⟩
    · exact .inl ⟨e, ⟨he, hn⟩, rfl⟩
    · by_cases hd : document.defaults.has e.1 = true
      · obtain ⟨d, hd, hde⟩ := List.mem_map.1 ((has_iff _ _).1 hd)
        exact .inl ⟨d, ⟨hd, by rw [hde]; exact hn⟩, hde⟩
      · exact .inr ⟨e, ⟨he, hn, by simpa using hd⟩, rfl⟩

end TypedSettings.Definition
