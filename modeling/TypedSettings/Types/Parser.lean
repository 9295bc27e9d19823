import TypedSettings.Step
import TypedSettings.Types.Registry
import TypedSettings.Types.Token

/-!
# Type expressions

A type expression is a choice of terms with bars between them; a term is a name, perhaps with types
in square brackets. The names of scalars, containers and choices are fixed; any other name is
looked up in the registry. The parts of a term are read in a fixed order, so that the first fault
from the left is the one reported.
-/

namespace TypedSettings

namespace SettingType

variable [Payloads]

/-- Why a text is no type expression. -/
inductive Cause where
  | stray (c : Char)
  | unexpected (found : Option Token)
  | expectedName (found : Option Token)
  | expectedSeparator (found : Option Token)
  | noArguments (name : String)
  | oneItem (shape : Shape)
  | tupleItems
  | mapItems
  | needsArguments (name : String)
  | dotsIn (name : String)
  | optionalOne
  | emptyUnion
  | unknown (name : String)
deriving DecidableEq

/-- A token in an error text, or the end of the text. -/
def describe : Option Token → String
  | some t => t.describe
  | none => "end of input"

def Cause.message : Cause → String
  | stray c => "unexpected character '" ++ c.toString ++ "'"
  | unexpected found => "unexpected " ++ describe found
  | expectedName found => "expected a type name, found " ++ describe found
  | expectedSeparator found => "expected ',' or ']', found " ++ describe found
  | noArguments name => "'" ++ name ++ "' does not take type arguments"
  | oneItem shape => "'" ++ shape.name ++ "' takes exactly one element type"
  | tupleItems => "'tuple' takes one element type, optionally followed by '...'"
  | mapItems => "'dict' takes a key type and a value type"
  | needsArguments name => "'" ++ name ++ "' requires type arguments"
  | dotsIn name => "'...' is not allowed in '" ++ name ++ "'"
  | optionalOne => "'Optional' takes exactly one type"
  | emptyUnion => "empty union"
  | unknown name => "unknown type '" ++ name ++ "'"

/-- `TypeExprError`: a cause, the number of bytes before its place, and the whole expression. -/
structure Error where
  cause : Cause
  position : Nat
  expression : String
deriving DecidableEq

def Error.message (e : Error) : String :=
  e.cause.message ++ " at position " ++ toString e.position ++ " in '" ++ e.expression ++ "'"

/-- A step of a reader of type expressions. -/
abbrev Step (α : Type) := TypedSettings.Step Token.Placed Cause α

/-! ## Names -/

/-- What stands between the square brackets of a term. -/
inductive Argument where
  | type (t : SettingType)
  | dots

/-- The name that counts for the fixed types: without one leading package name. -/
def bareName (name : String) : String :=
  let s := name.toList
  if "typing.".toList.isPrefixOf s then String.ofList (s.drop 7) else name

def scalarOf? (name : String) : Option Scalar :=
  match name with
  | "bool" => some .bool
  | "int" => some .int
  | "float" => some .float
  | "str" => some .str
  | "Decimal" | "decimal" | "decimal.Decimal" => some .decimal
  | "None" | "NoneType" => some .absent
  | _ => none

def shapeOf? (name : String) : Option Shape :=
  match name with
  | "list" | "List" => some .list
  | "set" | "Set" => some .set
  | "tuple" | "Tuple" => some .tuple
  | "dict" | "Dict" => some .map
  | _ => none

/-- The container of a shape with the types of its items. -/
def container (shape : Shape) (arguments : List Argument) : Except Cause SettingType :=
  match shape, arguments with
  | .list, [.type t] => .ok (listOf t)
  | .set, [.type t] => .ok (setOf t)
  | .tuple, [.type t] => .ok (tupleOf t)
  | .tuple, [.type t, .dots] => .ok (tupleOf t)
  | .map, [.type k, .type v] => .ok (mapOf k v)
  | .tuple, _ => .error .tupleItems
  | .map, _ => .error .mapItems
  | shape, _ => .error (.oneItem shape)

/-- The types among arguments, if there are no dots. -/
def typesOf? (arguments : List Argument) : Option (List SettingType) :=
  arguments.mapM fun a =>
    match a with
    | .type t => some t
    | .dots => none

/-- The types as one type. -/
def unionOf (ts : List SettingType) : Except Cause SettingType :=
  match join? ts with
  | some t => .ok t
  | none => .error .emptyUnion

/-- The choice that a name makes of its arguments. -/
def choiceOf (name : String) (arguments : List Argument) : Except Cause SettingType :=
  match typesOf? arguments, name with
  | none, _ => .error (.dotsIn name)
  | some [t], "Optional" => unionOf [t, scalar .absent]
  | some _, "Optional" => .error .optionalOne
  | some ts, _ => unionOf ts

/-- `ExprParser::resolve`: the type that a name and its arguments, if it has any, stand for. -/
def resolve (registry : Registry) (name : String) (arguments : Option (List Argument)) :
    Except Cause SettingType :=
  let short := bareName name
  match scalarOf? short, shapeOf? short with
  | some s, _ => if arguments.isSome then .error (.noArguments short) else .ok (scalar s)
  | none, some shape =>
    match arguments with
    | none => .ok (bare shape)
    | some arguments => container shape arguments
  | none, none =>
    if short = "Union" ∨ short = "Optional" then
      match arguments with
      | none => .error (.needsArguments short)
      | some arguments => choiceOf short arguments
    else
      match registry.resolve name with
      | none => .error (.unknown name)
      | some t => if arguments.isSome then .error (.noArguments name) else .ok t

/-! ## The grammar -/

def eat? (t : Token) : List Token.Placed → Option (List Token.Placed)
  | [] => none
  | p :: r => if p.token = t then some r else none

def first? (ts : List Token.Placed) : Option Token := ts.head?.map (·.token)

/-- The end of a term: the type that its name and arguments stand for. A fault is placed at the
name. -/
def finish (registry : Registry) (start : List Token.Placed) (name : String)
    (arguments : Option (List Argument)) (r : List Token.Placed) : Step SettingType :=
  match resolve registry name arguments with
  | .ok t => .ok (t, r)
  | .error cause => .error ⟨cause, start⟩

/-- The end of a union: the type of its terms. A fault is placed behind them. -/
def finishUnion (ts : List SettingType) (r : List Token.Placed) : Step SettingType :=
  match unionOf ts with
  | .ok t => .ok (t, r)
  | .error cause => .error ⟨cause, r⟩

mutual

/-- `ExprParser::union`: terms with bars between them. -/
def union (registry : Registry) : Nat → List Token.Placed → Step SettingType
  | 0, ts => .error ⟨.expectedName (first? ts), ts⟩
  | fuel + 1, ts =>
    (term registry fuel ts).next fun t r =>
    (moreTerms registry fuel r).next fun us r => finishUnion (t :: us) r
termination_by structural fuel => fuel

/-- Further terms, each after a bar. -/
def moreTerms (registry : Registry) : Nat → List Token.Placed → Step (List SettingType)
  | 0, ts => .ok ([], ts)
  | fuel + 1, ts =>
    match eat? .bar ts with
    | none => .ok ([], ts)
    | some r =>
      (term registry fuel r).next fun t r =>
      (moreTerms registry fuel r).next fun us r => .ok (t :: us, r)
termination_by structural fuel => fuel

/-- `ExprParser::term`: a name, perhaps with arguments. -/
def term (registry : Registry) : Nat → List Token.Placed → Step SettingType
  | 0, ts => .error ⟨.expectedName (first? ts), ts⟩
  | fuel + 1, ts =>
    match ts with
    | ⟨_, .name name⟩ :: r =>
      match eat? .opening r with
      | none => finish registry ts name none r
      | some r =>
        (arguments registry fuel r).next fun as r => finish registry ts name (some as) r
    | _ => .error ⟨.expectedName (first? ts), ts⟩
termination_by structural fuel => fuel

/-- `ExprParser::arguments`: arguments with commas between them up to the closing bracket; a
comma may follow the last. -/
def arguments (registry : Registry) : Nat → List Token.Placed → Step (List Argument)
  | 0, ts => .error ⟨.expectedName (first? ts), ts⟩
  | fuel + 1, ts =>
    (argument registry fuel ts).next fun a r =>
      match eat? .closing r with
      | some r => .ok ([a], r)
      | none =>
        match eat? .comma r with
        | none => .error ⟨.expectedSeparator (first? r), r⟩
        | some r =>
          match eat? .closing r with
          | some r => .ok ([a], r)
          | none => (arguments registry fuel r).next fun as r => .ok (a :: as, r)
termination_by structural fuel => fuel

def argument (registry : Registry) : Nat → List Token.Placed → Step Argument
  | 0, ts => .error ⟨.expectedName (first? ts), ts⟩
  | fuel + 1, ts =>
    match eat? .dots ts with
    | some r => .ok (.dots, r)
    | none => (union registry fuel ts).next fun t r => .ok (.type t, r)
termination_by structural fuel => fuel

end

/-- Fuel that is enough for as many tokens: of the five readers at most four in a row take no token,
and each recursion uses one unit. -/
def fuelFor (ts : List Token.Placed) : Nat := 5 * (ts.length + 1)

/-- Reads tokens that make up a whole expression. -/
def ofTokens (registry : Registry) (ts : List Token.Placed) :
    Except (Fault Token.Placed Cause) SettingType :=
  match union registry (fuelFor ts) ts with
  | .error f => .error f
  | .ok (t, []) => .ok t
  | .ok (_, r) => .error ⟨.unexpected (first? r), r⟩

def Error.ofFault (expression : String) (f : Fault Token.Placed Cause) : Error :=
  ⟨f.cause, (f.left.head?.map (·.position)).getD expression.utf8ByteSize, expression⟩

/-- `TypeDescriptor::parse`: the type that a type expression stands for. -/
def parse (registry : Registry) (expression : String) : Except Error SettingType :=
  match Token.ofText expression with
  | .error stray => .error ⟨.stray stray.char, stray.position, expression⟩
  | .ok ts =>
    match ofTokens registry ts with
    | .ok t => .ok t
    | .error f => .error (.ofFault expression f)

end SettingType

end TypedSettings
