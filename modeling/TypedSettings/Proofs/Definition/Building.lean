import Mathlib.Data.List.Forall2
import TypedSettings.Definition.Basic
import TypedSettings.Proofs.Table

/-!
# Building a definition

A declaration makes a setting of its name (`Makes`), or there is something wrong with it (`Faulty`).
The settings of a table of declarations are made of its entries one by one (`build_eq_ok_iff`), up to
the first that is faulty (`build_eq_error_iff`), and in a table that ascends this is the least one
(`build_eq_error_iff_least`). Of a series of declarations only the last one of each name is in the
table. Main statement: `ofDeclarations_last`.
-/

namespace TypedSettings.Definition

section
variable [Payloads]

/-! ## One declaration -/

/-- The type that a default suggests: for a value of a user-defined type the one registered under
its name, or else a text, and for any other value its own kind. -/
inductive Suggests (registry : Registry) : Value → SettingType → Prop where
  | registered {c : Custom} {t : SettingType} : registry.resolve c.typeName = some t →
      Suggests registry (.custom c) t
  | unregistered {c : Custom} : registry.resolve c.typeName = none →
      Suggests registry (.custom c) (.scalar .str)
  | builtIn {v : Value} : (∀ c, v ≠ .custom c) → Suggests registry v (.ofDefault v)

/-- The declaration makes the setting: with its default and its annotation, and with the type that
the annotation or else the default gives. -/
structure Makes (registry : Registry) (name : String) (d : Declaration) (s : Setting) : Prop where
  isSettingName : isSettingName name = true
  default : s.default = d.default
  annotation? : s.annotation? = d.annotation?
  annotated : ∀ expression, d.annotation? = some expression →
    SettingType.parse registry expression = .ok s.type
  inferred : d.annotation? = none → Suggests registry d.default s.type

/-- What is wrong with the declaration: its name is no setting name, or if it is, its annotation is
no type expression. -/
inductive Faulty (registry : Registry) (name : String) : Declaration → SettingsError → Prop where
  | name {d : Declaration} : isSettingName name = false →
      Faulty registry name d (.configuration
        ("Invalid setting name '" ++ name ++ "'. Setting names must be uppercase"))
  | expression {default : Value} {expression : String} {e : SettingType.Error} :
      isSettingName name = true → SettingType.parse registry expression = .error e →
      Faulty registry name ⟨default, some expression⟩ (.typeExpression e)

section
variable {registry : Registry} {name : String} {d : Declaration} {s : Setting} {e : SettingsError}

theorem suggests_iff {v : Value} {t : SettingType} :
    Suggests registry v t ↔ inferred registry v = t := by
  constructor
  · intro h
    cases h with
    | registered h => simp [inferred, h]
    | unregistered h =>
      simp only [inferred, h, Option.getD_none]
      rfl
    | builtIn h =>
      cases v with
      | custom c => exact absurd rfl (h c)
      | _ => rfl
  · rintro rfl
    cases v with
    | custom c =>
      cases hc : registry.resolve c.typeName with
      | some t =>
        simp only [inferred, hc, Option.getD_some]
        exact .registered hc
      | none =>
        simp only [inferred, hc, Option.getD_none]
        exact .unregistered hc
    | _ => exact .builtIn nofun

theorem Makes.typeOf_eq (h : Makes registry name d s) : typeOf registry d = .ok s.type := by
  unfold typeOf
  split
  · rename_i expression hexpression
    exact h.annotated expression hexpression
  · rename_i hnone
    rw [suggests_iff.1 (h.inferred hnone)]

theorem makes_iff : Makes registry name d s ↔ settingOf registry name d = .ok s := by
  unfold settingOf
  constructor
  · intro h
    rw [if_pos h.isSettingName, h.typeOf_eq, ← h.default, ← h.annotation?]
  · intro h
    split at h
    · rename_i hname
      split at h
      · rename_i t ht
        cases h
        obtain ⟨default, annotation?⟩ := d
        cases annotation? with
        | some expression => exact ⟨hname, rfl, rfl, by rintro _ ⟨⟩; exact ht, nofun⟩
        | none =>
          cases ht
          exact ⟨hname, rfl, rfl, nofun, fun _ => suggests_iff.2 rfl⟩
      · cases h
    · cases h

theorem faulty_iff : Faulty registry name d e ↔ settingOf registry name d = .error e := by
  unfold settingOf
  constructor
  · intro h
    cases h with
    | name hname => simp [hname, badName]
    | expression hname he => simp [hname, typeOf, he]
  · intro h
    split at h
    · rename_i hname
      obtain ⟨default, annotation?⟩ := d
      cases annotation? with
      | some expression =>
        cases he : SettingType.parse registry expression with
        | ok t => simp [typeOf, he] at h
        | error e =>
          simp only [typeOf, he] at h
          cases h
          exact .expression hname he
      | none => cases h
    · rename_i hname
      cases h
      exact .name (Bool.eq_false_iff.2 hname)

end

/-! ## A table of declarations -/

section
variable {registry : Registry} {ds : Table Declaration} {definition : Definition} {e : SettingsError}

theorem build_eq_ok_iff : build registry ds = .ok definition ↔
    List.Forall₂ (fun x y => x.1 = y.1 ∧ Makes registry x.1 x.2 y.2) ds definition := by
  induction ds generalizing definition with
  | nil => simp [build, eq_comm]
  | cons x ds ih =>
    obtain ⟨name, d⟩ := x
    rw [build_cons_eq_ok, List.forall₂_cons_left_iff]
    constructor
    · rintro ⟨s, settings, hs, hbuild, rfl⟩
      exact ⟨(name, s), settings, ⟨rfl, makes_iff.2 hs⟩, ih.1 hbuild, rfl⟩
    · rintro ⟨⟨_, s⟩, settings, ⟨rfl, hs⟩, hsettings, rfl⟩
      exact ⟨s, settings, makes_iff.1 hs, ih.2 hsettings, rfl⟩

theorem Makes.unique {name : String} {d : Declaration} {s s' : Setting}
    (h : Makes registry name d s) (h' : Makes registry name d s') : s = s' :=
  Except.ok.inj ((makes_iff.1 h).symm.trans (makes_iff.1 h'))

/-- A definition has the settings that the declarations make. -/
theorem find?_of_build (h : build registry ds = .ok definition) {name : String} {s : Setting} :
    definition.find? name = some s ↔ ∃ d, ds.find? name = some d ∧ Makes registry name d s := by
  have hmade := build_eq_ok_iff.1 h
  clear h
  induction hmade with
  | nil => simp [Table.find?_nil]
  | @cons x y ds settings hxy _ ih =>
    obtain ⟨hname, hmakes⟩ := hxy
    rw [Table.find?_cons, Table.find?_cons, ← hname]
    by_cases hx : x.1 = name
    · subst hx
      rw [if_pos rfl, if_pos rfl]
      constructor
      · intro hs
        cases hs
        exact ⟨x.2, rfl, hmakes⟩
      · rintro ⟨d, hd, hs⟩
        cases hd
        rw [hmakes.unique hs]
    · rw [if_neg hx, if_neg hx]
      exact ih

theorem build_cons_eq_error {x : String × Declaration} : build registry (x :: ds) = .error e ↔
    Faulty registry x.1 x.2 e ∨
      (∃ s, Makes registry x.1 x.2 s) ∧ build registry ds = .error e := by
  simp only [makes_iff, faulty_iff, build]
  cases settingOf registry x.1 x.2 with
  | error e => simp
  | ok s => cases build registry ds <;> simp

/-- What is wrong with the first faulty declaration is wrong with the table. -/
theorem build_eq_error_iff : build registry ds = .error e ↔ ∃ before x after,
    ds = before ++ x :: after ∧ (∀ y ∈ before, ∃ s, Makes registry y.1 y.2 s) ∧
      Faulty registry x.1 x.2 e := by
  induction ds with
  | nil => simp [build]
  | cons x ds ih =>
    rw [build_cons_eq_error, ih]
    constructor
    · rintro (hx | ⟨hx, before, y, after, rfl, hbefore, hy⟩)
      · exact ⟨[], x, ds, rfl, List.forall_mem_nil _, hx⟩
      · exact ⟨x :: before, y, after, rfl, List.forall_mem_cons.2 ⟨hx, hbefore⟩, hy⟩
    · rintro ⟨before, y, after, hds, hbefore, hy⟩
      cases before with
      | nil =>
        cases hds
        exact .inl hy
      | cons _ before =>
        cases hds
        obtain ⟨hx, hbefore⟩ := List.forall_mem_cons.1 hbefore
        exact .inr ⟨hx, before, y, after, rfl, hbefore, hy⟩

/-- In a table that ascends the first faulty declaration is the one of the least name. -/
theorem build_eq_error_iff_least (hds : ds.Ascending) : build registry ds = .error e ↔
    ∃ name d, ds.find? name = some d ∧ Faulty registry name d e ∧
      ∀ other d', other < name → ds.find? other = some d' → ∃ s, Makes registry other d' s := by
  rw [build_eq_error_iff]
  constructor
  · rintro ⟨before, ⟨name, d⟩, after, rfl, hbefore, hfaulty⟩
    refine ⟨name, d, Table.find?_of_mem hds (by simp), hfaulty, fun other d' hlt hd' => ?_⟩
    exact hbefore (other, d') ((mem_before_iff hds).2 ⟨Table.mem_of_find? hd', hlt⟩)
  · rintro ⟨name, d, hd, hfaulty, hleast⟩
    obtain ⟨before, after, rfl⟩ := List.append_of_mem (Table.mem_of_find? hd)
    refine ⟨before, (name, d), after, rfl, fun ⟨other, d'⟩ hd' => ?_, hfaulty⟩
    have hlt : other < name := (List.pairwise_append.1 hds).2.2 _ hd' _ List.mem_cons_self
    exact hleast other d' hlt (Table.find?_of_mem hds (List.mem_append_left _ hd'))

end

/-! ## A series of declarations -/

/-- The declaration is the last one of its name and is faulty, and below its name no last
declaration is. -/
structure LeastFaulty (registry : Registry) (ds : List (String × Declaration)) (name : String)
    (e : SettingsError) : Prop where
  faulty : ∃ d, IsLastEntry ds name d ∧ Faulty registry name d e
  least : ∀ other d, other < name → IsLastEntry ds other d → ∃ s, Makes registry other d s

section
variable {registry : Registry} {ds : List (String × Declaration)} {definition : Definition}
  {e : SettingsError}

theorem ofDeclarations_eq_error_iff :
    ofDeclarations registry ds = .error e ↔ ∃ name, LeastFaulty registry ds name e := by
  rw [ofDeclarations, build_eq_error_iff_least (Table.ascending_ofEntries ds)]
  simp only [Table.find?_ofEntries]
  constructor
  · rintro ⟨name, d, hd, hfaulty, hleast⟩
    exact ⟨name, ⟨d, hd, hfaulty⟩, hleast⟩
  · rintro ⟨name, ⟨d, hd, hfaulty⟩, hleast⟩
    exact ⟨name, d, hd, hfaulty, hleast⟩

/-- A definition has the settings that the last declarations make. -/
theorem find?_of_ofDeclarations (h : ofDeclarations registry ds = .ok definition) {name : String}
    {s : Setting} :
    definition.find? name = some s ↔ ∃ d, IsLastEntry ds name d ∧ Makes registry name d s := by
  rw [find?_of_build h]
  simp only [Table.find?_ofEntries]

/-- A definition has the names that are declared. -/
theorem mem_names_of_ofDeclarations (h : ofDeclarations registry ds = .ok definition)
    {name : String} : name ∈ definition.names ↔ ∃ d, IsLastEntry ds name d := by
  rw [names_build h, mem_names_iff, Option.isSome_iff_exists]
  simp only [Table.find?_ofEntries]

theorem ascending_of_ofDeclarations (h : ofDeclarations registry ds = .ok definition) :
    definition.Ascending := by
  have hnames : definition.names.Pairwise (· < ·) := by
    rw [names_build h]
    exact Table.pairwise_names (Table.ascending_ofEntries ds)
  exact List.pairwise_map.1 hnames

theorem exists_ofDeclarations_iff : (∃ definition, ofDeclarations registry ds = .ok definition) ↔
    ∀ name d, IsLastEntry ds name d → ∃ s, Makes registry name d s := by
  constructor
  · rintro ⟨definition, h⟩ name d hd
    have hname : name ∈ definition.names := (mem_names_of_ofDeclarations h).2 ⟨d, hd⟩
    obtain ⟨s, hs⟩ := Option.isSome_iff_exists.1 (mem_names_iff.1 hname)
    obtain ⟨d', hd', hmakes⟩ := (find?_of_build h).1 hs
    rw [Table.find?_ofEntries.2 hd] at hd'
    cases hd'
    exact ⟨s, hmakes⟩
  · intro h
    cases hbuilt : ofDeclarations registry ds with
    | ok definition => exact ⟨definition, rfl⟩
    | error e =>
      obtain ⟨name, ⟨d, hd, hfaulty⟩, -⟩ := ofDeclarations_eq_error_iff.1 hbuilt
      obtain ⟨s, hs⟩ := h name d hd
      rw [makes_iff, faulty_iff.1 hfaulty] at hs
      cases hs

end

end

end TypedSettings.Definition
