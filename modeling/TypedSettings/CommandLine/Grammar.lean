/-!
# Grammars of arguments

How a list of arguments is read against a grammar: options with values, flags and places. A value
follows its option, or is attached to it; an argument that starts with a hyphen is never a value by
itself, and behind two hyphens there are places only.
-/

namespace TypedSettings.CommandLine

/-- An option with a value. -/
structure ValueOption where
  name : String
  letter? : Option Char := none
  /-- Whether the value may be empty. -/
  mayBeEmpty : Bool := true

/-- What arguments may be given. -/
structure Grammar where
  options : List ValueOption
  flags : List String
  places : Nat
  /-- Whether the first argument in a place ends what is read. -/
  stopsAtPlace : Bool := false
  /-- Whether the version may be asked for. -/
  hasVersion : Bool := false

/-- The arguments that were given. -/
structure Given where
  values : List (String × String) := []
  flags : List String := []
  places : List String := []

/-- Why there is nothing to do: wrong usage, or help or the version was asked for. -/
inductive Stop where
  | usage
  | help
  | version
deriving DecidableEq

def Given.value? (given : Given) (name : String) : Option String := given.values.lookup name

def Given.hasFlag (given : Given) (name : String) : Bool := given.flags.contains name

/-- Adds the value of an option, which may be given once. -/
def Given.addValue (given : Given) (option : ValueOption) (value : String) : Except Stop Given :=
  if (given.value? option.name).isSome ∨ (value.isEmpty ∧ ¬ option.mayBeEmpty) then .error .usage
  else .ok { given with values := given.values ++ [(option.name, value)] }

/-- Adds a flag, which may be given once. -/
def Given.addFlag (given : Given) (name : String) : Except Stop Given :=
  if given.hasFlag name then .error .usage
  else .ok { given with flags := given.flags ++ [name] }

def Given.fill (given : Given) (grammar : Grammar) (values : List String) : Except Stop Given :=
  if given.places.length + values.length ≤ grammar.places then
    .ok { given with places := given.places ++ values }
  else .error .usage

/-- Whether an argument is taken for an option. -/
def looksLikeOption (arg : String) : Bool := arg.startsWith "-" && arg ≠ "-"

inductive ArgumentShape where
  | place (value : String)
  | divider
  | long (name : String) (attached? : Option String)
  | short (letter : Char) (rest : List Char)
deriving DecidableEq

/-- A name and the value that an equals sign attaches to it. -/
def splitAttached (s : List Char) : String × Option String :=
  let name := String.ofList (s.takeWhile (· ≠ '='))
  match s.dropWhile (· ≠ '=') with
  | [] => (name, none)
  | _ :: value => (name, some (String.ofList value))

def shapeOf (arg : String) : ArgumentShape :=
  match arg.toList with
  | ['-', '-'] => .divider
  | '-' :: '-' :: s => let (name, attached?) := splitAttached s; .long name attached?
  | '-' :: c :: rest => .short c rest
  | _ => .place arg

/-- The value attached to a letter, if there is one; an equals sign may stand before it. -/
def attachedTo : List Char → Option String
  | [] => none
  | '=' :: value => some (String.ofList value)
  | value => some (String.ofList value)

/-- What reading one argument leads to: more was given, or the value of an option comes next. -/
inductive Reading where
  | given (g : Given)
  | awaits (option : ValueOption)

/-- Reads an option with the value attached to it, if there is one. -/
def readOption (given : Given) (option : ValueOption) (attached? : Option String) :
    Except Stop Reading :=
  match attached? with
  | none => .ok (.awaits option)
  | some value => (given.addValue option value).map .given

def readLong (grammar : Grammar) (given : Given) (name : String) (attached? : Option String) :
    Except Stop Reading :=
  match grammar.options.find? (·.name == name) with
  | some option => readOption given option attached?
  | none =>
    if attached?.isSome then .error .usage
    else if name = "help" then .error .help
    else if name = "version" ∧ grammar.hasVersion then .error .version
    else if grammar.flags.contains name then (given.addFlag name).map .given
    else .error .usage

/-- Reads a letter with what is attached to it. -/
def readShort (grammar : Grammar) (given : Given) (letter : Char) (rest : List Char) :
    Except Stop Reading :=
  match grammar.options.find? (·.letter? == some letter) with
  | some option => readOption given option (attachedTo rest)
  | none =>
    if letter = 'h' then .error .help
    else if letter = 'V' ∧ grammar.hasVersion then .error .version
    else .error .usage

/-- Reads arguments; an option may await its value. The arguments from the first place on are left
if the grammar stops there. -/
def read (grammar : Grammar) (given : Given) (awaited? : Option ValueOption) :
    List String → Except Stop (Given × List String)
  | [] => if awaited?.isSome then .error .usage else .ok (given, [])
  | arg :: rest =>
    match awaited? with
    | some option =>
      if looksLikeOption arg then .error .usage
      else
        match given.addValue option arg with
        | .ok given => read grammar given none rest
        | .error stop => .error stop
    | none =>
      match shapeOf arg with
      | .divider =>
        match given.fill grammar rest with
        | .ok given => .ok (given, [])
        | .error stop => .error stop
      | .place value =>
        if grammar.stopsAtPlace then .ok (given, arg :: rest)
        else
          match given.fill grammar [value] with
          | .ok given => read grammar given none rest
          | .error stop => .error stop
      | .long name attached? =>
        match readLong grammar given name attached? with
        | .ok (.given given) => read grammar given none rest
        | .ok (.awaits option) => read grammar given (some option) rest
        | .error stop => .error stop
      | .short letter letters =>
        match readShort grammar given letter letters with
        | .ok (.given given) => read grammar given none rest
        | .ok (.awaits option) => read grammar given (some option) rest
        | .error stop => .error stop

end TypedSettings.CommandLine
