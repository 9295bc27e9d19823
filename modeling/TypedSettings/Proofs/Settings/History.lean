import Mathlib.Data.Set.Card
import TypedSettings.Proofs.Table
import TypedSettings.Settings.Session

/-!
# The first successful resolution

What a session has kept, told from its history alone: a name is bound to the value of the first
attempt on it that resolved since the settings last forgot their values, in the environment of that
moment. An attempt is what every action that asks for a name makes, and asking for all names makes
attempts up to the first one that leaves its name unbound. Main statements: every action keeps the
settings in step with the history (`Tracks.perform`), hence every run does (`Tracks.run`), and so
what a session answers, keeps and counts is what the history says (`run_refines_history`).
-/

namespace TypedSettings

variable [Payloads]

/-! ## Resolution -/

/-- What a name resolves to in an environment: the override of a declared name is converted to its
type, that of any other name is a text, and without an override a declared name has its default. -/
inductive Resolves (definition : Definition) (variablePrefix : String) (env : Environment)
    (name : String) : Except SettingsError Value → Prop where
  | converted {raw : String} {setting : Setting} {v : Value} :
      env (variablePrefix ++ name) = some raw → definition.find? name = some setting →
      convert name setting.type raw = .ok v →
      Resolves definition variablePrefix env name (.ok v)
  | refused {raw : String} {setting : Setting} {e : ConversionError} :
      env (variablePrefix ++ name) = some raw → definition.find? name = some setting →
      convert name setting.type raw = .error e →
      Resolves definition variablePrefix env name (.error (.conversion e))
  | undeclared {raw : String} : env (variablePrefix ++ name) = some raw →
      definition.find? name = none → Resolves definition variablePrefix env name (.ok (.str raw))
  | default {setting : Setting} : env (variablePrefix ++ name) = none →
      definition.find? name = some setting →
      Resolves definition variablePrefix env name (.ok setting.default)
  | unknown : env (variablePrefix ++ name) = none → definition.find? name = none →
      Resolves definition variablePrefix env name (.error (.unknownSetting name))

theorem resolves_iff {s : Settings} {env : Environment} {name : String}
    {r : Except SettingsError Value} :
    Resolves s.definition s.variablePrefix env name r ↔ s.resolve env name = r := by
  unfold Settings.resolve Settings.variableOf
  constructor
  · intro h
    cases h <;> simp_all
  · intro h
    subst h
    split
    · rename_i hraw hsetting
      split
      · exact .converted hraw hsetting ‹_›
      · exact .refused hraw hsetting ‹_›
    · exact .undeclared ‹_› ‹_›
    · exact .default ‹_› ‹_›
    · exact .unknown ‹_› ‹_›

/-! ## Histories -/

/-- An attempt to resolve a name, and the environment of that moment. -/
structure Attempt where
  name : String
  environment : Environment

/-- The environment now, and the attempts since the start or since the last time that the values were
forgotten, the earliest first. -/
structure History where
  environment : Environment
  attempts : List Attempt := []

namespace Settings

variable (s : Settings)

/-- The value of the first attempt on the name that resolved. -/
def binding (attempts : List Attempt) (name : String) : Option Value :=
  attempts.findSome? fun a =>
    if a.name = name then (s.resolve a.environment a.name).toOption else none

/-- What a name is answered with: its binding, or else what it resolves to now. -/
def answer (h : History) (name : String) : Except SettingsError Value :=
  match s.binding h.attempts name with
  | some v => .ok v
  | none => s.resolve h.environment name

/-- Attempts on names in order, up to the first that leaves its name unbound. -/
def attemptEach (env : Environment) : List Attempt → List String → List Attempt
  | attempts, [] => attempts
  | attempts, name :: names =>
    let attempts := attempts ++ [⟨name, env⟩]
    if (s.binding attempts name).isSome then attemptEach env attempts names else attempts

end Settings

def Action.asks? : Action → Option String
  | get name | getBool name | getInt name | getFloat name | getStr name => some name
  | _ => none

namespace History

/-- The history after one more action on settings of a definition. -/
def step (s : Settings) (h : History) : Action → History
  | .get name | .getBool name | .getInt name | .getFloat name | .getStr name =>
    { h with attempts := h.attempts ++ [⟨name, h.environment⟩] }
  | .getAll => { h with attempts := s.attemptEach h.environment h.attempts s.definition.names }
  | .forget => { h with attempts := [] }
  | .setVariable name text => { h with environment := h.environment.set name text }
  | .unsetVariable name => { h with environment := h.environment.unset name }

/-- The history after actions, one after the other. -/
def run (s : Settings) (h : History) (actions : List Action) : History :=
  actions.foldl (fun h action => h.step s action) h

end History

/-! ## Asking for names -/

theorem binding_append (s : Settings) (attempts : List Attempt) (name other : String)
    (env : Environment) :
    s.binding (attempts ++ [⟨name, env⟩]) other =
      (s.binding attempts other).or
        (if name = other then (s.resolve env name).toOption else none) := by
  simp only [Settings.binding, List.findSome?_append, List.findSome?_cons, List.findSome?_nil]
  congr 1
  split <;> simp_all

/-- The settings keep what the attempts bind, and nothing else. -/
structure Keeps (start : Settings) (attempts : List Attempt) (s : Settings) : Prop where
  definition : s.definition = start.definition
  variablePrefix : s.variablePrefix = start.variablePrefix
  find?_kept : ∀ name, s.kept.find? name = start.binding attempts name
  ascending : s.kept.Ascending

section
variable {start s : Settings} {attempts : List Attempt} {env : Environment} {name : String}

theorem Keeps.resolve (h : Keeps start attempts s) :
    s.resolve env name = start.resolve env name := by
  simp only [Settings.resolve, Settings.variableOf, h.definition, h.variablePrefix]

theorem Keeps.get_fst (h : Keeps start attempts s) :
    (s.get env name).1 = start.answer ⟨env, attempts⟩ name := by
  rw [Settings.get_fst, h.find?_kept, h.resolve]
  rfl

/-- Asking for a name is an attempt on it. -/
theorem Keeps.get (h : Keeps start attempts s) :
    Keeps start (attempts ++ [⟨name, env⟩]) (s.get env name).2 := by
  have hfind := h.find?_kept
  unfold Settings.get
  split
  · -- the name is bound already, and the attempt binds nothing
    rename_i v hv
    refine ⟨h.definition, h.variablePrefix, fun other => ?_, h.ascending⟩
    rw [binding_append, ← hfind other]
    by_cases hn : name = other
    · rw [← hn, hv, Option.some_or]
    · rw [if_neg hn, Option.or_none]
  · rename_i hnone
    rw [h.resolve]
    cases hr : start.resolve env name with
    | ok v =>
      refine ⟨h.definition, h.variablePrefix, fun other => ?_, Table.ascending_insert h.ascending⟩
      rw [binding_append, ← hfind other, Table.find?_insert, hr]
      by_cases hn : name = other
      · rw [if_pos hn, if_pos hn, ← hn, hnone]
        rfl
      · rw [if_neg hn, if_neg hn, Option.or_none]
    | error e =>
      refine ⟨h.definition, h.variablePrefix, fun other => ?_, h.ascending⟩
      rw [binding_append, ← hfind other, hr]
      by_cases hn : name = other
      · rw [if_pos hn]
        exact Option.or_none.symm
      · rw [if_neg hn, Option.or_none]

/-- Asking for names in order is an attempt on each, up to the first that stays unbound. -/
theorem Keeps.getEach (h : Keeps start attempts s) (names : List String) :
    Keeps start (start.attemptEach env attempts names) (s.getEach env names).2 := by
  induction names generalizing attempts s with
  | nil => exact h
  | cons name names ih =>
    have hget : Keeps start (attempts ++ [⟨name, env⟩]) (s.get env name).2 := h.get
    have hkept := hget.find?_kept name
    rw [Settings.attemptEach, Settings.getEach]
    cases hr : (s.get env name).1 with
    | ok v =>
      rw [Settings.find?_get hr, if_pos rfl] at hkept
      have hpair : s.get env name = (.ok v, (s.get env name).2) := Prod.ext hr rfl
      rw [hpair]
      simp only [← hkept, Option.isSome_some, if_true]
      exact ih hget
    | error e =>
      have hnone : s.kept.find? name = none := by
        cases hk : s.kept.find? name with
        | none => rfl
        | some v =>
          rw [Settings.get_fst, hk] at hr
          cases hr
      rw [Settings.get_snd_of_error hr, hnone] at hkept
      have hpair : s.get env name = (.error e, (s.get env name).2) := Prod.ext hr rfl
      rw [hpair]
      simp only [← hkept, Option.isSome_none, Bool.false_eq_true, if_false]
      exact hget

end

/-! ## Sessions -/

theorem getAs_snd {α : Type} (kind : String) (view : Value → Option α) (s : Settings)
    (env : Environment) (name : String) :
    (Settings.getAs kind view s env name).2 = (s.get env name).2 := by
  unfold Settings.getAs
  split
  · rename_i h
    rw [h]
  · rename_i h
    rw [h]
    split <;> rfl

theorem getAs_of_error {α : Type} {kind : String} {view : Value → Option α} {s : Settings}
    {env : Environment} {name : String} {e : SettingsError} (h : (s.get env name).1 = .error e) :
    Settings.getAs kind view s env name = (.error e, s) := by
  have hpair : s.get env name = (.error e, s) := Prod.ext h (Settings.get_snd_of_error h)
  rw [Settings.getAs, hpair]

section
variable {start : Settings} {h : History} {session : Session} {a : Action} {name : String}

/-- Whatever view of a name is asked for, the settings are left as asking for the name leaves
them. -/
theorem perform_of_asks (ha : a.asks? = some name) :
    (session.perform a).2 =
      { session with settings := (session.settings.get session.environment name).2 } := by
  cases a <;> cases ha <;>
    simp only [Session.perform, Session.ask, Settings.getBool, Settings.getInt, Settings.getFloat,
      Settings.getStr, getAs_snd]

/-- Asking for a name that fails is answered with the failure and changes nothing. -/
theorem perform_of_error (ha : a.asks? = some name) {e : SettingsError}
    (he : (session.settings.get session.environment name).1 = .error e) :
    session.perform a = (.failed e, session) := by
  have hpair : session.settings.get session.environment name = (.error e, session.settings) :=
    Prod.ext he (Settings.get_snd_of_error he)
  cases a <;> cases ha <;>
    simp only [Session.perform, Session.ask, Settings.getBool, Settings.getInt, Settings.getFloat,
      Settings.getStr, getAs_of_error he, hpair, Session.reply]

/-- A session is in step with a history: they have the same environment, and the settings keep what
the attempts bind. -/
structure Tracks (start : Settings) (h : History) (session : Session) : Prop where
  environment : session.environment = h.environment
  keeps : Keeps start h.attempts session.settings

/-- One action keeps session and history in step. -/
theorem Tracks.perform (ht : Tracks start h session) (a : Action) :
    Tracks start (h.step start a) (session.perform a).2 := by
  obtain ⟨henv, hkeeps⟩ := ht
  have asked : ∀ {name}, a.asks? = some name →
      Tracks start { h with attempts := h.attempts ++ [⟨name, h.environment⟩] }
        (session.perform a).2 := by
    intro name ha
    rw [perform_of_asks ha, henv]
    exact ⟨rfl, hkeeps.get⟩
  cases a with
  | get _ | getBool _ | getInt _ | getFloat _ | getStr _ => exact asked rfl
  | getAll =>
    refine ⟨henv, ?_⟩
    simp only [Session.perform, Session.ask, Settings.getAll, hkeeps.definition, henv]
    exact hkeeps.getEach start.definition.names
  | forget => exact ⟨henv, hkeeps.definition, hkeeps.variablePrefix, fun _ => rfl, List.Pairwise.nil⟩
  | setVariable name text => exact ⟨congrArg (·.set name text) henv, hkeeps⟩
  | unsetVariable name => exact ⟨congrArg (·.unset name) henv, hkeeps⟩

/-- A run keeps session and history in step. -/
theorem Tracks.run (ht : Tracks start h session) (actions : List Action) :
    Tracks start (h.run start actions) (session.run actions) := by
  induction actions generalizing h session with
  | nil => exact ht
  | cons a actions ih => exact ih (ht.perform a)

end

/-! ## What a session answers, keeps and counts -/

/-- As many values are kept as names are bound. -/
theorem Keeps.length_eq {start s : Settings} {attempts : List Attempt}
    (h : Keeps start attempts s) :
    s.kept.length = {name | (start.binding attempts name).isSome = true}.ncard := by
  have hset : {name | (start.binding attempts name).isSome = true} =
      (s.kept.names.toFinset : Set String) := by
    ext name
    simp only [Set.mem_ofPred_eq, ← h.find?_kept, ← mem_names_iff, Finset.mem_coe,
      List.mem_toFinset]
  rw [hset, Set.ncard_coe_finset, List.toFinset_card_of_nodup (nodup_names h.ascending),
    Table.names, List.length_map]

theorem tracks_start (definition : Definition) (variablePrefix : String) (env : Environment) :
    Tracks ⟨definition, variablePrefix, []⟩ ⟨env, []⟩ ⟨⟨definition, variablePrefix, []⟩, env⟩ where
  environment := rfl
  keeps := ⟨rfl, rfl, fun _ => rfl, List.Pairwise.nil⟩

/-- After any run the settings keep what the history binds, and as many values as it binds names. A
name is answered with its binding, or else with what it resolves to now; whatever asks for a name
binds it if it resolves, also if the value is of another kind, and changes nothing if it does
not. -/
theorem run_refines_history (definition : Definition) (variablePrefix : String)
    (env : Environment) (actions : List Action) :
    let start : Settings := ⟨definition, variablePrefix, []⟩
    let session := Session.run ⟨start, env⟩ actions
    let history := History.run start ⟨env, []⟩ actions
    session.environment = history.environment ∧
    (∀ env name r, start.resolve env name = r ↔
      Resolves definition variablePrefix env name r) ∧
    (∀ name, session.settings.kept.find? name = start.binding history.attempts name) ∧
    (∀ name, (session.perform (.get name)).1 =
      Session.reply .value (start.answer history name)) ∧
    (∀ a name e, a.asks? = some name → start.answer history name = .error e →
      session.perform a = (.failed e, session)) ∧
    (∀ a name v, a.asks? = some name → start.answer history name = .ok v →
      (session.perform a).2.settings.kept.find? name = some v) ∧
    session.settings.kept.length =
      {name | (start.binding history.attempts name).isSome = true}.ncard := by
  intro start session history
  have ht : Tracks start history session :=
    (tracks_start definition variablePrefix env).run actions
  have hget : ∀ name, (session.settings.get session.environment name).1 =
      start.answer history name := by
    intro name
    rw [ht.environment]
    exact ht.keeps.get_fst
  refine ⟨ht.environment, fun _ _ _ => resolves_iff.symm, ht.keeps.find?_kept, fun name => ?_,
    fun a name e ha he => ?_, fun a name v ha hv => ?_, ht.keeps.length_eq⟩
  · rw [← hget name]
    rfl
  · exact perform_of_error ha ((hget name).trans he)
  · rw [perform_of_asks ha]
    exact (Settings.find?_get ((hget name).trans hv) name).trans (if_pos rfl)

end TypedSettings
