import TypedSettings.Text.Digit

/-!
# Custom values

A value of a user-defined type: the name of the type and a payload. The user-defined types bring
their payloads with them, and nothing is known of those but their equality and their display texts,
so that whatever is said of values holds whatever the payloads are.
-/

namespace TypedSettings

/-- The payloads of the user-defined types. -/
class Payloads where
  Payload : Type
  /-- Whether two payloads are equal; of two different types they are not. -/
  same : Payload → Payload → Bool
  /-- The display text of a payload. -/
  display : Payload → List Char

export Payloads (Payload)

section
variable [Payloads]

instance : BEq Payload := ⟨Payloads.same⟩

/-- `CustomValue`: a value of a user-defined type. -/
structure Custom where
  typeName : String
  payload : Payload

/-- Values of user-defined types are equal if the types have one name and the payloads are equal. -/
instance : BEq Custom := ⟨fun c d => c.typeName == d.typeName && c.payload == d.payload⟩

theorem beq_custom (c d : Custom) :
    (c == d) = (c.typeName == d.typeName && c.payload == d.payload) := rfl

end

/-! ## Integers for payloads -/

namespace Payloads.Integers

/-- All payloads are integers. -/
scoped instance integers : Payloads where
  Payload := Int64
  same m n := m == n
  display n := Text.ofInt n.toInt

scoped instance : EquivBEq Payload := inferInstanceAs (EquivBEq Int64)

end Payloads.Integers

end TypedSettings
