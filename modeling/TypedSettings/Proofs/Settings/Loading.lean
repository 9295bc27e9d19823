import TypedSettings.Proofs.Definition.Building
import TypedSettings.Proofs.Settings.Failures

/-!
# Loading all settings

Asking for all declared settings, whatever is kept already. A name that is kept or resolves is
passed over and leaves its value (`Filled.get`), so a series of such names leaves the values of all
of them (`Filled.getEach`), and the first name that is refused ends the series with its error. As
declared names ascend, that name is the least one refused, and the names before it are those below
it (`getAll_of_leastRefused`). Main statement: what loading answers and what it leaves kept, with
and without a name that is refused (`getAll_loads`).
-/

namespace TypedSettings

section
variable [Payloads]

/-! ## Names that are refused -/

namespace Settings

variable (s : Settings) (env : Environment)

/-- The name is kept, or it resolves. -/
def Available (name : String) : Prop :=
  (s.kept.find? name).isSome = true ∨ ∃ v, s.resolve env name = .ok v

/-- The name is not kept, and it fails to resolve. -/
def Refused (name : String) (e : SettingsError) : Prop :=
  s.kept.find? name = none ∧ s.resolve env name = .error e

/-- The least declared name that is refused. -/
structure LeastRefused (name : String) (e : SettingsError) : Prop where
  declared : name ∈ s.definition.names
  refused : s.Refused env name e
  least : ∀ other ∈ s.definition.names, other < name → s.Available env other

end Settings

section
variable {s t : Settings} {env : Environment} {name : String} {names : List String}
  {e : SettingsError}

theorem not_available_iff : ¬ s.Available env name ↔ ∃ e, s.Refused env name e := by
  unfold Settings.Available Settings.Refused
  cases s.kept.find? name <;> cases s.resolve env name <;> simp

/-- A name that is kept is answered with what is kept, and any other resolves. -/
theorem get_fst_of_available (h : s.Available env name) : ∃ v, (s.get env name).1 = .ok v ∧
    (s.kept.find? name = some v ∨ s.kept.find? name = none ∧ s.resolve env name = .ok v) := by
  rw [Settings.get_fst]
  cases hk : s.kept.find? name with
  | some v => exact ⟨v, rfl, .inl rfl⟩
  | none =>
    obtain ⟨v, hv⟩ := h.resolve_left (by simp [hk])
    exact ⟨v, hv, .inr ⟨rfl, hv⟩⟩

/-- Of some names all are available, or the first that is not is refused. -/
theorem available_or_exists_refused (s : Settings) (env : Environment) (names : List String) :
    (∀ name ∈ names, s.Available env name) ∨ ∃ before name after e,
      names = before ++ name :: after ∧ (∀ other ∈ before, s.Available env other) ∧
        s.Refused env name e := by
  induction names with
  | nil => exact .inl (List.forall_mem_nil _)
  | cons name names ih =>
    by_cases h : s.Available env name
    · rcases ih with ih | ⟨before, other, after, e, rfl, hbefore, hrefused⟩
      · exact .inl (List.forall_mem_cons.2 ⟨h, ih⟩)
      · exact .inr ⟨name :: before, other, after, e, rfl, List.forall_mem_cons.2 ⟨h, hbefore⟩,
          hrefused⟩
    · obtain ⟨e, he⟩ := not_available_iff.1 h
      exact .inr ⟨[], name, names, e, rfl, List.forall_mem_nil _, he⟩

/-! ## What is kept on the way -/

theorem definition_get (s : Settings) (env : Environment) (name : String) :
    (s.get env name).2.definition = s.definition := by
  unfold Settings.get
  split
  · rfl
  · split <;> rfl

theorem variablePrefix_get (s : Settings) (env : Environment) (name : String) :
    (s.get env name).2.variablePrefix = s.variablePrefix := by
  unfold Settings.get
  split
  · rfl
  · split <;> rfl

/-- The second settings are the first after some names were asked for: what was kept is kept
unchanged, and besides it there are the values of those of the names that had none, and nothing
else. -/
structure Filled (s : Settings) (env : Environment) (asked : String → Prop) (t : Settings) :
    Prop where
  definition : t.definition = s.definition
  variablePrefix : t.variablePrefix = s.variablePrefix
  find?_kept : ∀ name v, t.kept.find? name = some v ↔ s.kept.find? name = some v ∨
    s.kept.find? name = none ∧ asked name ∧ s.resolve env name = .ok v

theorem filled_self (s : Settings) (env : Environment) : Filled s env (fun _ => False) s :=
  ⟨rfl, rfl, by simp⟩

section
variable {asked : String → Prop}

theorem Filled.congr {asked' : String → Prop} (h : Filled s env asked t)
    (hasked : ∀ name, asked name ↔ asked' name) : Filled s env asked' t :=
  ⟨h.definition, h.variablePrefix, by simpa only [← hasked] using h.find?_kept⟩

theorem Filled.resolve (h : Filled s env asked t) : t.resolve env name = s.resolve env name := by
  simp only [Settings.resolve, Settings.variableOf, h.definition, h.variablePrefix]

/-- A name is still answered as it was before the names were asked for. -/
theorem Filled.get_fst (h : Filled s env asked t) :
    (t.get env name).1 = (s.get env name).1 := by
  rw [Settings.get_fst, Settings.get_fst, h.resolve]
  cases hk : s.kept.find? name with
  | some v => rw [(h.find?_kept name v).2 (.inl hk)]
  | none =>
    cases ht : t.kept.find? name with
    | none => rfl
    | some v =>
      obtain hv | ⟨-, -, hv⟩ := (h.find?_kept name v).1 ht
      · rw [hk] at hv
        cases hv
      · exact hv.symm

theorem Filled.isSome_of_asked (h : Filled s env asked t) (ha : asked name)
    (havailable : s.Available env name) : (t.kept.find? name).isSome = true := by
  obtain ⟨v, -, hv⟩ := get_fst_of_available havailable
  rw [(h.find?_kept name v).2 (hv.imp_right fun hv => ⟨hv.1, ha, hv.2⟩)]
  rfl

/-- Asking for one more name that is available. -/
theorem Filled.get (h : Filled s env asked t) (havailable : s.Available env name) :
    ∃ v, (t.get env name).1 = .ok v ∧
      Filled s env (fun other => asked other ∨ other = name) (t.get env name).2 := by
  obtain ⟨v, hv, hvalue⟩ := get_fst_of_available havailable
  have hfst : (t.get env name).1 = .ok v := h.get_fst.trans hv
  refine ⟨v, hfst, (definition_get t env name).trans h.definition,
    (variablePrefix_get t env name).trans h.variablePrefix, fun other w => ?_⟩
  rw [Settings.find?_get hfst]
  by_cases hn : name = other
  · subst hn
    rw [if_pos rfl]
    constructor
    · intro hw
      cases hw
      exact hvalue.imp_right fun hv => ⟨hv.1, .inr rfl, hv.2⟩
    · intro hw
      rcases hvalue with hk | ⟨hk, hr⟩
      · simpa [hk] using hw
      · simpa [hk, hr] using hw
  · rw [if_neg hn, h.find?_kept]
    simp [Ne.symm hn]

/-- Names that are available are passed over, and leave their values. -/
theorem Filled.getEach (h : Filled s env asked t)
    (havailable : ∀ name ∈ names, s.Available env name)
    (rest : List String) : ∃ u, t.getEach env (names ++ rest) = u.getEach env rest ∧
      Filled s env (fun name => asked name ∨ name ∈ names) u := by
  induction names generalizing asked t with
  | nil => exact ⟨t, rfl, h.congr (by simp)⟩
  | cons name names ih =>
    obtain ⟨hname, hnames⟩ := List.forall_mem_cons.1 havailable
    obtain ⟨v, hv, hget⟩ := h.get hname
    obtain ⟨u, hu, hfilled⟩ := ih hget hnames
    have hpair : t.get env name = (.ok v, (t.get env name).2) := Prod.ext hv rfl
    refine ⟨u, ?_, hfilled.congr fun other => by rw [List.mem_cons, or_assoc]⟩
    rw [List.cons_append, Settings.getEach, hpair]
    exact hu

/-- A name that is refused ends the series. -/
theorem Filled.getEach_of_refused (h : Filled s env asked t) (hrefused : s.Refused env name e)
    (rest : List String) : t.getEach env (name :: rest) = (.error e, t) := by
  have hfst : (t.get env name).1 = .error e := by
    rw [h.get_fst, Settings.get_fst, hrefused.1]
    exact hrefused.2
  have hpair : t.get env name = (.error e, t) := Prod.ext hfst (Settings.get_snd_of_error hfst)
  rw [Settings.getEach, hpair]

end

/-! ## All declared names -/

theorem getAll_of_available (h : ∀ name ∈ s.definition.names, s.Available env name) :
    (s.getAll env).1 = .ok () ∧ Filled s env (· ∈ s.definition.names) (s.getAll env).2 := by
  obtain ⟨u, hu, hfilled⟩ := (filled_self s env).getEach h []
  rw [List.append_nil] at hu
  rw [Settings.getAll, hu]
  exact ⟨rfl, hfilled.congr (by simp)⟩

theorem getAll_of_leastRefused (hs : s.definition.Ascending) (h : s.LeastRefused env name e) :
    (s.getAll env).1 = .error e ∧
      Filled s env (fun other => other ∈ s.definition.names ∧ other < name) (s.getAll env).2 := by
  have hsorted := Table.pairwise_names hs
  obtain ⟨before, after, hnames⟩ := List.append_of_mem h.declared
  rw [hnames] at hsorted
  have hbefore : ∀ other ∈ before, s.Available env other := by
    intro other hother
    obtain ⟨hmem, hlt⟩ := (mem_before_iff (f := id) hsorted).1 hother
    exact h.least other (hnames ▸ hmem) hlt
  obtain ⟨u, hu, hfilled⟩ := (filled_self s env).getEach hbefore (name :: after)
  rw [hfilled.getEach_of_refused h.refused] at hu
  rw [Settings.getAll, hnames, hu]
  refine ⟨rfl, hfilled.congr fun other => ?_⟩
  rw [false_or, mem_before_iff (f := id) hsorted]
  rfl

theorem available_or_exists_leastRefused (hs : s.definition.Ascending) (env : Environment) :
    (∀ name ∈ s.definition.names, s.Available env name) ∨ ∃ name e, s.LeastRefused env name e := by
  refine (available_or_exists_refused s env s.definition.names).imp_right ?_
  rintro ⟨before, name, after, e, hnames, hbefore, hrefused⟩
  have hsorted := Table.pairwise_names hs
  rw [hnames] at hsorted
  refine ⟨name, e, ?_, hrefused, fun other hmem hlt => ?_⟩
  · rw [hnames]
    exact List.mem_append_right _ List.mem_cons_self
  · exact hbefore other ((mem_before_iff (f := id) hsorted).2 ⟨hnames ▸ hmem, hlt⟩)

/-- Loading succeeds exactly if every declared name is kept or resolves, and then every declared
name is kept. Otherwise it fails with the error of the least declared name that is refused. In both
cases what was kept is kept unchanged, and besides it there are the values of the declared names
that had none: of all of them, or of those below the name that is refused. -/
theorem getAll_loads {s : Settings} (hs : s.definition.Ascending) (env : Environment) :
    ((s.getAll env).1 = .ok () ↔ ∀ name ∈ s.definition.names, s.Available env name) ∧
    ((s.getAll env).1 = .ok () →
      (∀ name ∈ s.definition.names, ((s.getAll env).2.kept.find? name).isSome = true) ∧
        Filled s env (· ∈ s.definition.names) (s.getAll env).2) ∧
    (∀ e, (s.getAll env).1 = .error e ↔ ∃ name, s.LeastRefused env name e) ∧
    ∀ name e, s.LeastRefused env name e →
      Filled s env (fun other => other ∈ s.definition.names ∧ other < name) (s.getAll env).2 := by
  have hok : (s.getAll env).1 = .ok () → ∀ name ∈ s.definition.names, s.Available env name := by
    intro h
    rcases available_or_exists_leastRefused hs env with hall | ⟨name, e, hleast⟩
    · exact hall
    · rw [(getAll_of_leastRefused hs hleast).1] at h
      cases h
  refine ⟨⟨hok, fun h => (getAll_of_available h).1⟩, fun h => ?_, fun e => ⟨fun h => ?_, ?_⟩,
    fun name e h => (getAll_of_leastRefused hs h).2⟩
  · have hfilled := (getAll_of_available (hok h)).2
    exact ⟨fun name hname => hfilled.isSome_of_asked hname (hok h name hname), hfilled⟩
  · rcases available_or_exists_leastRefused hs env with hall | ⟨name, e', hleast⟩
    · rw [(getAll_of_available hall).1] at h
      cases h
    · rw [(getAll_of_leastRefused hs hleast).1] at h
      cases h
      exact ⟨name, hleast⟩
  · rintro ⟨name, h⟩
    exact (getAll_of_leastRefused hs h).1

end

end

open Payloads.Integers in
/-- The value that is kept for BACKLOG hides an override that would be refused now; loading ends
with LIMIT, when DEPTH has its value and ZOOM has none yet. -/
theorem getAll_loads_partly :
    ∃ (s : Settings) (env : Environment) (e : SettingsError), s.definition.Ascending ∧
      s.definition.names = ["BACKLOG", "DEPTH", "LIMIT", "ZOOM"] ∧
      (∃ e, s.resolve env "BACKLOG" = .error e) ∧ s.LeastRefused env "LIMIT" e ∧
      (s.getAll env).1 = .error e ∧
      (s.getAll env).2.kept.find? "BACKLOG" = some (.int 10) ∧
      (s.getAll env).2.kept.find? "DEPTH" = some (.int 20) ∧
      (s.getAll env).2.kept.find? "EXTRA" = some (.str "x") ∧
      ∀ v, (s.getAll env).2.kept.find? "ZOOM" ≠ some v := by
  let declared : List (String × Declaration) := [("LIMIT", .ofDefault (.int 3)),
    ("ZOOM", .ofDefault (.int 4)), ("BACKLOG", .ofDefault (.int 1)), ("DEPTH", .ofDefault (.int 2))]
  let env := Environment.empty.setAll [("APP_BACKLOG", "many"), ("APP_DEPTH", "20"),
    ("APP_LIMIT", "none")]
  let definition : Definition := [("BACKLOG", ⟨.int 1, none, .scalar .int⟩),
    ("DEPTH", ⟨.int 2, none, .scalar .int⟩), ("LIMIT", ⟨.int 3, none, .scalar .int⟩),
    ("ZOOM", ⟨.int 4, none, .scalar .int⟩)]
  let s : Settings := ⟨definition, "APP_", [("BACKLOG", .int 10), ("EXTRA", .str "x")]⟩
  have hbuilt : Definition.ofDeclarations {} declared = .ok definition := rfl
  have hs : s.definition.Ascending := Definition.ascending_of_ofDeclarations hbuilt
  have hleast : s.LeastRefused env "LIMIT" (.conversion (.mismatch "LIMIT" "none" "int")) := by
    refine ⟨by decide, ⟨rfl, rfl⟩, fun other hmem hlt => ?_⟩
    simp only [s, definition, Table.names, List.map_cons, List.map_nil, List.mem_cons,
      List.not_mem_nil, or_false] at hmem
    rcases hmem with rfl | rfl | rfl | rfl
    · exact .inl rfl
    · exact .inr ⟨.int 20, rfl⟩
    · exact absurd hlt (String.lt_irrefl _)
    · exact .inr ⟨.int 4, rfl⟩
  obtain ⟨-, -, herror, hkept⟩ := getAll_loads hs env
  have hfind := (hkept _ _ hleast).find?_kept
  refine ⟨s, env, _, hs, rfl, ⟨_, rfl⟩, hleast, (herror _).2 ⟨_, hleast⟩,
    (hfind _ _).2 (.inl rfl), (hfind _ _).2 (.inr ⟨rfl, ⟨by decide, by decide⟩, rfl⟩),
    (hfind _ _).2 (.inl rfl), fun v hv => ?_⟩
  rcases (hfind _ _).1 hv with h | ⟨-, ⟨-, hlt⟩, -⟩
  · cases h
  · exact absurd hlt (by decide)

end TypedSettings
