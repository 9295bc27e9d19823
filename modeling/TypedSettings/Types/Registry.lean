import TypedSettings.Table
import TypedSettings.Text.Blank
import TypedSettings.Text.Shown
import TypedSettings.Types.Basic

/-!
# Registered types

User-defined types by name. A type may expose hooks under the names of several capabilities and may
have a constructor; the hook under the registry's own capability makes it a hooked type, and
failing that its constructor makes it a built one. Main statements: a hook's type is written as its
name and tells the hook (`Hook.render_type`, `Hook.type_inj`); what a registration does to the hook
and to the constructor of a name (`hook?_addHook`, `constructor?_addConstructor`).
-/

namespace TypedSettings

variable [Payloads]

/-- `ConversionHook`: builds values of a user-defined type from converted values. -/
structure Hook where
  typeName : String
  parameters : List (Option SettingType)
  invoke : Value → Except String Value

/-- `TypeDescriptor::custom`: the type that the hook makes. -/
def Hook.type (h : Hook) : SettingType := .hooked h.typeName h.parameters h.invoke

theorem Hook.render_type (h : Hook) : h.type.render = h.typeName := String.ofList_toList

/-- No two hooks make one type, though types of one name count as the same. -/
theorem Hook.type_inj {h g : Hook} : h.type = g.type ↔ h = g := by
  cases h
  cases g
  simp [Hook.type]

/-- `RegisteredType`: what is registered under one name: hooks by capability, and how a text is
read. -/
structure Registered where
  hooks : Table Hook := []
  build? : Option (String → Option Value) := none

/-- `TypeRegistry`: the registered types and the capability whose hooks count. -/
structure Registry where
  capability : String := "from_setting"
  types : Table Registered := []

namespace Registry

def defaultCapability : String := "from_setting"

/-- The variable that names another capability. -/
def capabilityVariable : String := "ENVCAST_HOOK_NAME"

/-- `TypeRegistry::new`: the empty registry of the capability that a variable names; a blank one
is passed over. -/
def ofVariable (name : Option String) : Registry :=
  match name with
  | some name => if Text.isBlankText name then ⟨defaultCapability, []⟩ else ⟨name, []⟩
  | none => ⟨defaultCapability, []⟩

/-- What is registered under a name, if only an empty registration. -/
def registered (r : Registry) (name : String) : Registered :=
  (r.types.find? name).getD {}

/-- `TypeRegistry::register_hook`: exposes a hook on a type under a capability. -/
def addHook (r : Registry) (name capability : String) (hook : Hook) : Registry :=
  let old := r.registered name
  { r with types := r.types.insert name { old with hooks := old.hooks.insert capability hook } }

/-- `TypeRegistry::register_from_str`: gives a type a constructor. What it builds goes by the
name of the type. -/
def addConstructor (r : Registry) (name : String) (c : Constructor) : Registry :=
  { r with types := r.types.insert name { r.registered name with build? := some c.build } }

/-- `TypeRegistry::hook`: the hook of a type that counts. -/
def hook? (r : Registry) (name : String) : Option Hook :=
  (r.registered name).hooks.find? r.capability

/-- `TypeRegistry::is_custom`: whether a type has a hook that counts. -/
def isHooked (r : Registry) (name : String) : Bool := (r.hook? name).isSome

/-- The constructor of a type, under the name it is registered under. -/
def constructor? (r : Registry) (name : String) : Option Constructor :=
  (r.registered name).build?.map fun build => ⟨name, build⟩

/-- `TypeRegistry::resolve`: the type under a name: a hook that counts goes before a
constructor. -/
def resolve (r : Registry) (name : String) : Option SettingType :=
  match r.hook? name with
  | some hook => some hook.type
  | none => (r.constructor? name).map .built

/-- The registry on display: its capability and the names of its types. -/
def display (r : Registry) : String :=
  let names := [',', ' '].intercalate (r.types.names.map fun n => Text.shown n.toList)
  "TypeRegistry \x7b hook_name: " ++ String.ofList (Text.shown r.capability.toList) ++
    ", types: [" ++ String.ofList names ++ "] \x7d"

theorem registered_addHook (r : Registry) (name capability : String) (hook : Hook)
    (other : String) :
    (r.addHook name capability hook).registered other =
      if name = other then
        { r.registered name with hooks := (r.registered name).hooks.insert capability hook }
      else r.registered other := by
  simp only [registered, addHook, Table.find?_insert]
  split <;> rfl

theorem registered_addConstructor (r : Registry) (name : String) (c : Constructor)
    (other : String) :
    (r.addConstructor name c).registered other =
      if name = other then { r.registered name with build? := some c.build }
      else r.registered other := by
  simp only [registered, addConstructor, Table.find?_insert]
  split <;> rfl

theorem hook?_addHook (r : Registry) (name capability : String) (hook : Hook) (other : String) :
    (r.addHook name capability hook).hook? other =
      if name = other ∧ capability = r.capability then some hook else r.hook? other := by
  simp only [hook?, registered_addHook]
  by_cases hn : name = other
  · subst hn
    simp [Table.find?_insert, addHook]
  · simp [hn, addHook]

theorem constructor?_addConstructor (r : Registry) (name : String) (c : Constructor)
    (other : String) :
    (r.addConstructor name c).constructor? other =
      if name = other then some ⟨name, c.build⟩ else r.constructor? other := by
  unfold constructor?
  rw [registered_addConstructor]
  by_cases hn : name = other
  · simp [hn]
  · simp [hn]

theorem typeName_of_constructor? {r : Registry} {name : String} {c : Constructor}
    (h : r.constructor? name = some c) : c.typeName = name := by
  obtain ⟨build, _, rfl⟩ := Option.map_eq_some_iff.1 h
  rfl

end Registry

end TypedSettings
