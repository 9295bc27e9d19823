/-!
# Environments

Variables by name. Main statements: what setting and unsetting a variable does to every variable
(`set_apply`, `unset_apply`).
-/

namespace TypedSettings

/-- The texts of the variables that are set. -/
abbrev Environment := String → Option String

namespace Environment

def empty : Environment := fun _ => none

/-- `MapEnv::set`. -/
def set (env : Environment) (name text : String) : Environment :=
  fun other => if other = name then some text else env other

/-- `MapEnv::remove`. -/
def unset (env : Environment) (name : String) : Environment :=
  fun other => if other = name then none else env other

def setAll (env : Environment) (entries : List (String × String)) : Environment :=
  entries.foldl (fun env v => env.set v.1 v.2) env

/-- Sets a variable unless it is set. -/
def propose (env : Environment) (name text : String) : Environment :=
  if (env name).isSome then env else env.set name text

theorem set_apply (env : Environment) (name text other : String) :
    env.set name text other = if other = name then some text else env other := rfl

theorem unset_apply (env : Environment) (name other : String) :
    env.unset name other = if other = name then none else env other := rfl

theorem propose_apply (env : Environment) (name text other : String) :
    env.propose name text other =
      if other = name then some ((env name).getD text) else env other := by
  unfold propose
  split
  · rename_i h
    obtain ⟨old, h⟩ := Option.isSome_iff_exists.1 h
    by_cases ho : other = name
    · simp [ho, h]
    · simp [ho]
  · rename_i h
    simp only [Option.not_isSome_iff_eq_none] at h
    by_cases ho : other = name <;> simp [set, ho, h]

end Environment

end TypedSettings
