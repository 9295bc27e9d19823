import TypedSettings.CommandLine.Run
import TypedSettings.Environment.Block

/-!
# The program

Runs the command line of this process on its environment and on the files of the system.
-/

namespace TypedSettings

/-- What a fault of the system is to the library. -/
def faultOf : IO.Error → FileFault
  | .noFileOrDirectory _ _ _ => .notFound
  | .inappropriateType _ 21 _ => .isDirectory
  | .inappropriateType _ 20 _ => .notDirectory
  | e => .other (toString e)

def attempt {α : Type} (action : IO α) : IO (Except FileFault α) := do
  match ← action.toBaseIO with
  | .ok a => return .ok a
  | .error e => return .error (faultOf e)

/-- Whether something can be opened, or is there and cannot be opened. -/
def isPresent (path : String) : IO Bool := do
  match ← attempt (IO.FS.Handle.mk path .read) with
  | .ok _ => return true
  | .error fault => return fault != .notFound && fault != .notDirectory

def systemFiles : Files IO where
  present := isPresent
  read path := attempt (IO.FS.readBinFile path)
  write path text := attempt (IO.FS.writeFile path text)
  makeDirectories path := attempt (IO.FS.createDirAll path)

def processEnvironment : IO Environment := do
  return .ofBlock (← IO.FS.readBinFile "/proc/self/environ")

/-- The program registers no types, so that it has no payloads. -/
@[reducible]
def noPayloads : Payloads := ⟨Empty, fun p _ => p.elim, Empty.elim⟩

end TypedSettings

/-- Runs the program and ends with its status. -/
def main (args : List String) : IO UInt32 := do
  let _ := TypedSettings.noPayloads
  let env ← TypedSettings.processEnvironment
  let outcome ← TypedSettings.CommandLine.run TypedSettings.systemFiles env args
  IO.print outcome.output
  IO.eprint outcome.complaint
  return outcome.exit.toUInt32
