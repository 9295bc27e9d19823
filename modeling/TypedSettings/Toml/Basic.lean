import TypedSettings.Table
import TypedSettings.Toml.DateTime
import TypedSettings.Value.Basic

/-!
# TOML values

What a TOML text can hold, and the setting value that it stands for: a date-time is a text, and a
table is a map that is built of its entries, with texts for keys.
-/

namespace TypedSettings

variable [Payloads]

/-- A value of a TOML document. -/
inductive Toml where
  | text (s : String)
  | int (n : Int64)
  | float (x : Float)
  | bool (b : Bool)
  | dateTime (d : DateTime)
  | array (items : List Toml)
  | table (entries : List (String × Toml))

namespace Toml

mutual

/-- `toml_to_value`: the setting value that a TOML value stands for. -/
def toValue : Toml → Value
  | text s => .str s
  | int n => .int n
  | float x => .float x
  | bool b => .bool b
  | dateTime d => .str (String.ofList d.chars)
  | array items => .list (itemValues items)
  | table entries => .mapOf (tableEntries entries)
termination_by structural t => t

def itemValues : List Toml → List Value
  | [] => []
  | t :: ts => toValue t :: itemValues ts
termination_by structural ts => ts

/-- The entries of a table, with texts for keys. -/
def tableEntries : List (String × Toml) → List (Value × Value)
  | [] => []
  | (k, t) :: es => (.str k, toValue t) :: tableEntries es
termination_by structural es => es

end

theorem itemValues_eq_map (ts : List Toml) : itemValues ts = ts.map toValue := by
  induction ts with
  | nil => rfl
  | cons t ts ih => simp [itemValues, ih]

theorem tableEntries_eq_map (es : List (String × Toml)) :
    tableEntries es = es.map fun e => (.str e.1, e.2.toValue) := by
  induction es with
  | nil => rfl
  | cons e es ih => simp [tableEntries, ih]

end Toml

end TypedSettings
