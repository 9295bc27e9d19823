import TypedSettings.Types.Registry

/-!
# Registrations

What a registry is told, one thing after the other: a hook on a type under a capability, a type that
makes its values itself, or a type whose values are built from texts. A type that makes its values
itself is registered under its own name, by a hook under the capability that it names.
-/

namespace TypedSettings

variable [Payloads]

/-- `FromSetting`: a type that makes its values itself, of values that have been converted to
its parameter. -/
structure CustomType where
  typeName : String
  capability : String := Registry.defaultCapability
  parameter : SettingType
  make : Value → Except String Payload

/-- `TypedHook`: it has one typed parameter, and what it makes goes by the name of the type. -/
def CustomType.hook (t : CustomType) : Hook where
  typeName := t.typeName
  parameters := [some t.parameter]
  invoke v := (t.make v).map fun payload => .custom ⟨t.typeName, payload⟩

/-- One thing that a registry is told. -/
inductive Registration where
  | hook (name capability : String) (hook : Hook)
  | custom (t : CustomType)
  | built (name : String) (c : Constructor)

namespace Registration

def name : Registration → String
  | hook name _ _ => name
  | custom t => t.typeName
  | built name _ => name

/-- The capability and the hook that are exposed, if a hook is. -/
def exposed? : Registration → Option (String × Hook)
  | hook _ capability h => some (capability, h)
  | custom t => some (t.capability, t.hook)
  | built _ _ => none

/-- How texts are built into values, if that is told. -/
def build? : Registration → Option (String → Option Value)
  | built _ c => some c.build
  | _ => none

end Registration

namespace Registry

/-- The registry after one more registration. -/
def register (r : Registry) : Registration → Registry
  | .hook name capability hook => r.addHook name capability hook
  | .custom t => r.addHook t.typeName t.capability t.hook
  | .built name c => r.addConstructor name c

/-- The registry after some more registrations, one after the other. -/
def registerEach (r : Registry) (xs : List Registration) : Registry := xs.foldl register r

end Registry

end TypedSettings
