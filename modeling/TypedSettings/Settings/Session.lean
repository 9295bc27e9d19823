import TypedSettings.Settings.Basic

/-!
# Sessions

Settings in use while the environment may change: a session is a series of actions, each of which
asks for something or changes something. Main statement: a session of two parts is the second after
the first (`run_append`).
-/

namespace TypedSettings

variable [Payloads]

/-- What can be done with settings and their environment. -/
inductive Action where
  | get (name : String)
  | getBool (name : String)
  | getInt (name : String)
  | getFloat (name : String)
  | getStr (name : String)
  | getAll
  | forget
  | setVariable (name text : String)
  | unsetVariable (name : String)

/-- What comes of an action. -/
inductive Reply where
  | value (v : Value)
  | bool (b : Bool)
  | int (n : Int64)
  | float (x : Float)
  | str (s : String)
  | done
  | failed (e : SettingsError)

/-- Settings and the environment that they look into. -/
structure Session where
  settings : Settings
  environment : Environment

namespace Session

def reply {α : Type} (f : α → Reply) : Except SettingsError α → Reply
  | .ok a => f a
  | .error e => .failed e

/-- Asks the settings for something. -/
def ask {α : Type} (session : Session) (f : α → Reply)
    (question : Settings → Environment → Except SettingsError α × Settings) : Reply × Session :=
  let (result, settings) := question session.settings session.environment
  (reply f result, { session with settings := settings })

def perform (session : Session) : Action → Reply × Session
  | .get name => session.ask .value fun s env => s.get env name
  | .getBool name => session.ask .bool fun s env => s.getBool env name
  | .getInt name => session.ask .int fun s env => s.getInt env name
  | .getFloat name => session.ask .float fun s env => s.getFloat env name
  | .getStr name => session.ask .str fun s env => s.getStr env name
  | .getAll => session.ask (fun () => .done) fun s env => s.getAll env
  | .forget => (.done, { session with settings := session.settings.forget })
  | .setVariable name text =>
    (.done, { session with environment := session.environment.set name text })
  | .unsetVariable name =>
    (.done, { session with environment := session.environment.unset name })

/-- Does actions one after the other, and gives the session after them. -/
def run (session : Session) (actions : List Action) : Session :=
  actions.foldl (fun session action => (session.perform action).2) session

theorem run_append (session : Session) (first second : List Action) :
    session.run (first ++ second) = (session.run first).run second :=
  List.foldl_append ..

end Session

end TypedSettings
