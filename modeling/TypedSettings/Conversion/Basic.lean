import TypedSettings.Conversion.Scalar
import TypedSettings.Literal.Parser

/-!
# Conversion

How the text of an override becomes a value of the setting's type. A choice takes the first
alternative that converts. A hooked type converts to the type of the hook's one parameter and calls
the hook. A container is read as a literal of its shape, and the items of a typed container are
checked one by one: an item of a hooked type is replaced by what its plain text converts to, any
other item stays as it is.
-/

namespace TypedSettings

variable [Payloads]

/-! ## Containers -/

/-- `convert_container`: the literal of a shape that a text writes, after a check of its items.
A text that is no literal of the shape is expected to have the bare shape; one whose items fail,
the whole type. -/
def ofLiteral (setting raw : String) (shape : Shape) (whole : String)
    (check : Value → Option Value) : Except ConversionError Value :=
  match Literal.parse raw with
  | .error _ => .error (.mismatch setting raw shape.name)
  | .ok v =>
    if shape.fits v then
      match check v with
      | some w => .ok w
      | none => .error (.mismatch setting raw whole)
    else .error (.mismatch setting raw shape.name)

def checkList (item : Value → Option Value) : Value → Option Value
  | .list vs => (vs.mapM item).map .list
  | _ => none

def checkTuple (item : Value → Option Value) : Value → Option Value
  | .tuple vs => (vs.mapM item).map .tuple
  | _ => none

/-- Checks the members of a set, which is built anew of what they become. -/
def checkSet (item : Value → Option Value) : Value → Option Value
  | .set vs => (vs.mapM item).map .setOf
  | _ => none

/-- Checks the entries of a map, which is built anew of what they become. -/
def checkMap (key content : Value → Option Value) : Value → Option Value
  | .map es =>
    (es.mapM fun e => (key e.1).bind fun k => (content e.2).map fun v => (k, v)).map .mapOf
  | _ => none

/-! ## Hooks -/

/-- `convert_custom` from its argument on; a refused argument has not the hook's type. -/
def callHook (setting raw typeName : String) (invoke : Value → Except String Value)
    (argument : Except ConversionError Value) : Except ConversionError Value :=
  match argument with
  | .error e => .error e
  | .ok v =>
    match invoke v with
    | .ok w => .ok w
    | .error _ => .error (.mismatch setting raw typeName)

/-! ## Conversion -/

mutual

/-- The value of a type that the text of an override writes. -/
def convert (setting : String) : SettingType → String → Except ConversionError Value
  | .scalar s, raw => s.convert setting raw
  | .built c, raw =>
    match c.build raw with
    | some v => .ok v
    | none => .error (.mismatch setting raw c.typeName)
  | .bare shape, raw => ofLiteral setting raw shape shape.name some
  | .listOf t, raw =>
    ofLiteral setting raw .list (SettingType.listOf t).render (checkList (check setting t))
  | .tupleOf t, raw =>
    ofLiteral setting raw .tuple (SettingType.tupleOf t).render (checkTuple (check setting t))
  | .setOf t, raw =>
    ofLiteral setting raw .set (SettingType.setOf t).render (checkSet (check setting t))
  | .mapOf k v, raw =>
    ofLiteral setting raw .map (SettingType.mapOf k v).render
      (checkMap (check setting k) (check setting v))
  | .choice ts, raw =>
    match convertFirst setting ts raw with
    | some v => .ok v
    | none => .error (.mismatch setting raw (SettingType.choice ts).render)
  | .hooked typeName parameters invoke, raw =>
    callHook setting raw typeName invoke (convertArgument setting typeName parameters raw)
termination_by structural t => t

/-- `convert_union`: what the first of the types that the text converts to makes of it. -/
def convertFirst (setting : String) : List SettingType → String → Option Value
  | [], _ => none
  | t :: ts, raw =>
    match convert setting t raw with
    | .ok v => some v
    | .error _ => convertFirst setting ts raw
termination_by structural ts => ts

/-- The argument of a hook with these parameters. -/
def convertArgument (setting typeName : String) :
    List (Option SettingType) → String → Except ConversionError Value
  | [], _ => .error (.signature setting typeName .parameterCount)
  | p :: ps, raw =>
    if ps.isEmpty then convertParameter setting typeName p raw
    else .error (.signature setting typeName .parameterCount)
termination_by structural ps => ps

def convertParameter (setting typeName : String) :
    Option SettingType → String → Except ConversionError Value
  | none, _ => .error (.signature setting typeName .untypedParameter)
  | some t, raw => convert setting t raw
termination_by structural p => p

/-- `validate_element` and `validate_container`: what an item that a literal wrote becomes in a
container of items of the type. -/
def check (setting : String) : SettingType → Value → Option Value
  | .scalar s, v => if s.admits v then some v else none
  | .built _, _ => none
  | .bare shape, v => if shape.fits v then some v else none
  | .listOf t, v => checkList (check setting t) v
  | .tupleOf t, v => checkTuple (check setting t) v
  | .setOf t, v => checkSet (check setting t) v
  | .mapOf k w, v => checkMap (check setting k) (check setting w) v
  | .choice ts, v => checkFirst setting ts v
  | .hooked typeName parameters invoke, v =>
    (callHook setting v.plain typeName invoke
      (convertArgument setting typeName parameters v.plain)).toOption
termination_by structural t => t

def checkFirst (setting : String) : List SettingType → Value → Option Value
  | [], _ => none
  | t :: ts, v =>
    match check setting t v with
    | some w => some w
    | none => checkFirst setting ts v
termination_by structural ts => ts

end

/-- An item of a hooked type becomes what its plain text converts to. -/
theorem check_hooked (setting typeName : String) (parameters : List (Option SettingType))
    (invoke : Value → Except String Value) (v : Value) :
    check setting (.hooked typeName parameters invoke) v =
      (convert setting (.hooked typeName parameters invoke) v.plain).toOption := by
  rw [check, convert]

end TypedSettings
