import TypedSettings.Value.Printer

/-!
# Setting types

What the override of a setting is converted to: a scalar, a container with or without types for
its items, an ordered choice of types, or a user-defined type. Two user-defined types are the same
type if they have the same name. Main statements: every type equals itself (`equal_refl`),
and the type taken from a value admits the value's shape (`ofDefault_fits`).
-/

namespace TypedSettings

variable [Payloads]

/-- `PrimitiveKind`: the types read straight from a text. A text is taken for `absent` as it
stands. -/
inductive Scalar where
  | bool
  | int
  | float
  | str
  | decimal
  | absent
deriving DecidableEq

/-- `ContainerShape`. -/
inductive Shape where
  | list
  | tuple
  | set
  | map
deriving DecidableEq

/-- `StrConstructor`: builds the values of a user-defined type from their texts. -/
structure Constructor where
  typeName : String
  build : String → Option Value

/-- `TypeDescriptor`: the type of a setting. A hooked type declares the parameters of the hook
that builds its values, some of them perhaps untyped. -/
inductive SettingType where
  | scalar (s : Scalar)
  | built (c : Constructor)
  | bare (s : Shape)
  | listOf (item : SettingType)
  | tupleOf (item : SettingType)
  | setOf (item : SettingType)
  | mapOf (key content : SettingType)
  | choice (alternatives : List SettingType)
  | hooked (typeName : String) (parameters : List (Option SettingType))
      (invoke : Value → Except String Value)

/-! ## Names -/

def Scalar.name : Scalar → String
  | bool => "bool"
  | int => "int"
  | float => "float"
  | str => "str"
  | decimal => "Decimal"
  | absent => "None"

def Shape.name : Shape → String
  | list => "list"
  | tuple => "tuple"
  | set => "set"
  | map => "dict"

/-- `ContainerShape::matches`: whether a value has the shape. -/
def Shape.fits : Shape → Value → Bool
  | list, .list _ => true
  | tuple, .tuple _ => true
  | set, .set _ => true
  | map, .map _ => true
  | _, _ => false

namespace SettingType

mutual

/-- The canonical text of a type. -/
def chars : SettingType → List Char
  | scalar s => s.name.toList
  | built c => c.typeName.toList
  | bare s => s.name.toList
  | listOf t => Shape.list.name.toList ++ '[' :: (chars t ++ [']'])
  | tupleOf t =>
    Shape.tuple.name.toList ++ '[' :: (chars t ++ [',', ' ', '.', '.', '.', ']'])
  | setOf t => Shape.set.name.toList ++ '[' :: (chars t ++ [']'])
  | mapOf k v =>
    Shape.map.name.toList ++ '[' :: (chars k ++ ',' :: ' ' :: (chars v ++ [']']))
  | choice ts => [' ', '|', ' '].intercalate (charsEach ts)
  | hooked name _ _ => name.toList
termination_by structural t => t

def charsEach : List SettingType → List (List Char)
  | [] => []
  | t :: ts => chars t :: charsEach ts
termination_by structural ts => ts

end

/-- The canonical text of a type. -/
def render (t : SettingType) : String := String.ofList t.chars

/-! ## Equality -/

mutual

/-- Whether two types are the same type. -/
def equal : SettingType → SettingType → Bool
  | scalar a, scalar b => a == b
  | built a, built b => a.typeName == b.typeName
  | bare a, bare b => a == b
  | listOf a, listOf b => equal a b
  | tupleOf a, tupleOf b => equal a b
  | setOf a, setOf b => equal a b
  | mapOf k v, mapOf k' v' => equal k k' && equal v v'
  | choice as, choice bs => equalEach as bs
  | hooked a _ _, hooked b _ _ => a == b
  | _, _ => false
termination_by structural t => t

def equalEach : List SettingType → List SettingType → Bool
  | [], [] => true
  | a :: as, b :: bs => equal a b && equalEach as bs
  | _, _ => false
termination_by structural ts => ts

end

mutual

theorem equal_refl : ∀ t : SettingType, equal t t = true
  | scalar _ => by simp [equal]
  | built _ => by simp [equal]
  | bare _ => by simp [equal]
  | listOf t => by simp [equal, equal_refl t]
  | tupleOf t => by simp [equal, equal_refl t]
  | setOf t => by simp [equal, equal_refl t]
  | mapOf k v => by simp [equal, equal_refl k, equal_refl v]
  | choice ts => by simp [equal, equalEach_refl ts]
  | hooked _ _ _ => by simp [equal]

theorem equalEach_refl : ∀ ts : List SettingType, equalEach ts ts = true
  | [] => rfl
  | t :: ts => by simp [equalEach, equal_refl t, equalEach_refl ts]

end

/-! ## Joining types -/

/-- The alternatives of a type: those of a choice, or the type itself. -/
def alternatives : SettingType → List SettingType
  | choice ts => ts
  | t => [t]

def addAlternative (ts : List SettingType) (t : SettingType) : List SettingType :=
  if ts.any (equal · t) then ts else ts ++ [t]

/-- The alternatives of some types, each at its first place. -/
def joined (ts : List SettingType) : List SettingType :=
  (ts.flatMap alternatives).foldl addAlternative []

/-- `TypeDescriptor::union`: the choice between the alternatives of some types; a single
alternative stands for itself, and of no alternative there is no choice. -/
def join? (ts : List SettingType) : Option SettingType :=
  match joined ts with
  | [] => none
  | [t] => some t
  | ts => some (choice ts)

/-! ## The type of a default -/

/-- `TypeDescriptor::from_default`: the type that a default suggests for its setting. -/
def ofDefault : Value → SettingType
  | .absent => scalar .absent
  | .bool _ => scalar .bool
  | .int _ => scalar .int
  | .float _ => scalar .float
  | .str _ => scalar .str
  | .decimal _ => scalar .decimal
  | .list _ => bare .list
  | .tuple _ => bare .tuple
  | .set _ => bare .set
  | .map _ => bare .map
  | .custom _ => scalar .str

theorem ofDefault_fits {v : Value} {s : Shape} (h : ofDefault v = bare s) : s.fits v = true := by
  cases v <;> simp_all [ofDefault] <;> subst h <;> rfl

end SettingType

end TypedSettings
