import TypedSettings.Conversion.Basic
import TypedSettings.Proofs.Types.RoundTrip

/-!
# Joined types convert as their parts do

What the first of some types makes of a text is not changed by joining them: an inner choice makes
of a text what the first of its alternatives does (`findSome?_alternatives`), and of two
alternatives that count as the same the later one is never needed, since types of one named registry
that count as the same are the same (`eq_of_equal`). Main statement: a join converts a text as the
first of the types that converts it, and fails if all of them fail; an optional type never fails
(`convert_join`).
-/

namespace TypedSettings

open SettingType

section
variable [Payloads]

section
variable {registry : Registry} {setting raw : String} {t : SettingType} {ts : List SettingType}

/-! ## The first alternative -/

/-- What a type makes of a text, if it can be converted. -/
def converted? (setting raw : String) (t : SettingType) : Option Value :=
  (convert setting t raw).toOption

theorem converted?_eq_some_iff {v : Value} :
    converted? setting raw t = some v ↔ convert setting t raw = .ok v := by
  unfold converted?
  cases convert setting t raw <;> simp [Except.toOption]

theorem converted?_eq_none_iff :
    converted? setting raw t = none ↔ ∃ e, convert setting t raw = .error e := by
  unfold converted?
  cases convert setting t raw <;> simp [Except.toOption]

theorem convertFirst_eq_findSome? (setting raw : String) (ts : List SettingType) :
    convertFirst setting ts raw = ts.findSome? (converted? setting raw) := by
  induction ts with
  | nil => rfl
  | cons t ts ih =>
    rw [convertFirst, List.findSome?_cons, ih, converted?]
    cases convert setting t raw <;> rfl

/-- A choice makes of a text what the first of its alternatives makes of it. -/
theorem converted?_choice (setting raw : String) (ts : List SettingType) :
    converted? setting raw (.choice ts) = ts.findSome? (converted? setting raw) := by
  rw [converted?, convert, convertFirst_eq_findSome?]
  cases ts.findSome? (converted? setting raw) <;> rfl

theorem findSome?_alternatives (setting raw : String) (t : SettingType) :
    t.alternatives.findSome? (converted? setting raw) = converted? setting raw t := by
  cases t with
  | choice ts => rw [converted?_choice, SettingType.alternatives]
  | _ =>
    rw [alternatives_of_ne_choice (by intro us h; cases h)]
    exact List.findSome?_singleton

/-- Inlining the alternatives of choices does not change which type is the first. -/
theorem findSome?_flatMap_alternatives (setting raw : String) (ts : List SettingType) :
    (ts.flatMap SettingType.alternatives).findSome? (converted? setting raw) =
      ts.findSome? (converted? setting raw) := by
  induction ts with
  | nil => rfl
  | cons t ts ih =>
    rw [List.flatMap_cons, List.findSome?_append, findSome?_alternatives, ih, List.findSome?_cons]
    cases converted? setting raw t <;> rfl

/-! ## Joining -/

/-- Types of a named registry, joined, make of a text what the first of them makes of it. -/
theorem exists_join?_converted? (hr : registry.HooksNamed) (hne : ts ≠ [])
    (hts : ∀ t ∈ ts, Normal (Offered registry) t) :
    ∃ u, join? ts = some u ∧
      ∀ setting raw, converted? setting raw u = ts.findSome? (converted? setting raw) := by
  obtain ⟨u, hu, _, halternatives⟩ := exists_join? hne hts
  refine ⟨u, hu, fun setting raw => ?_⟩
  have hpart : ∀ a ∈ ts.flatMap SettingType.alternatives, Normal (Offered registry) a := by
    intro a ha
    obtain ⟨t, ht, ha⟩ := List.mem_flatMap.1 ha
    exact ((hts t ht).alternative ha).1
  have hsame : ∀ a ∈ ts.flatMap SettingType.alternatives,
      ∀ b ∈ ts.flatMap SettingType.alternatives, equal a b = true →
        converted? setting raw a = converted? setting raw b := by
    intro a ha b hb hab
    rw [eq_of_equal hr (hpart a ha) (hpart b hb) hab]
  rw [← findSome?_alternatives, halternatives, joined_eq_foldl, findSome?_foldl_addNew hsame]
  exact findSome?_flatMap_alternatives setting raw ts

/-- The name for optional types makes of an expression's type its join with no value. -/
theorem parse_optional {expression : String} (h : parse registry expression = .ok t) :
    ∃ u, parse registry ("Optional[" ++ expression ++ "]") = .ok u ∧
      join? [t, .scalar .absent] = some u := by
  have hnormal := normal_optional (normal_of_parse h)
  have hname : Token.IsName "Optional" := Token.isName_of_all rfl (by decide) (by decide)
  have hwrites := ((writes_of_parse h).lastArgument.applied hname
    (.optional (.plain (by decide)))).union (normal_joinOf (List.cons_ne_nil _ _) hnormal)
  refine ⟨_, Writes.parse ?_, join?_eq_joinOf (List.cons_ne_nil _ _) hnormal⟩
  simpa using hwrites

/-- A text always converts to an optional type: to what it converts to otherwise, or to itself. -/
theorem findSome?_optional (setting raw : String) (t : SettingType) :
    [t, .scalar .absent].findSome? (converted? setting raw) =
      some ((converted? setting raw t).getD (.str raw)) := by
  have habsent : converted? setting raw (.scalar .absent) = some (.str raw) := rfl
  rw [List.findSome?_cons, List.findSome?_cons, habsent]
  cases converted? setting raw t <;> rfl

/-! ## Conversion -/

/-- Types that are read with a named registry have a join. It converts a text as the first of them
that converts it, and fails if all of them fail. Converting to an optional type never fails: it
gives what converting to the type gives, and the text itself where that fails. -/
theorem convert_join (hr : registry.HooksNamed) :
    (∀ ts : List SettingType, ts ≠ [] → (∀ t ∈ ts, ∃ e, parse registry e = .ok t) →
      ∃ u, join? ts = some u ∧ ∀ setting raw,
        (∀ v, convert setting u raw = .ok v ↔ ∃ before t after, ts = before ++ t :: after ∧
          convert setting t raw = .ok v ∧ ∀ b ∈ before, ∃ e, convert setting b raw = .error e) ∧
        ((∃ e, convert setting u raw = .error e) ↔
          ∀ t ∈ ts, ∃ e, convert setting t raw = .error e)) ∧
    ∀ expression t, parse registry expression = .ok t →
      ∃ u, parse registry ("Optional[" ++ expression ++ "]") = .ok u ∧
        join? [t, .scalar .absent] = some u ∧ ∀ setting raw, convert setting u raw =
          match convert setting t raw with
          | .ok v => .ok v
          | .error _ => .ok (.str raw) := by
  constructor
  · intro ts hne hts
    have hnormal : ∀ t ∈ ts, Normal (Offered registry) t := by
      intro t ht
      obtain ⟨expression, h⟩ := hts t ht
      exact normal_of_parse h
    obtain ⟨u, hu, hfirst⟩ := exists_join?_converted? hr hne hnormal
    refine ⟨u, hu, fun setting raw => ⟨fun v => ?_, ?_⟩⟩
    · rw [← converted?_eq_some_iff, hfirst, List.findSome?_eq_some_iff]
      simp only [converted?_eq_some_iff, converted?_eq_none_iff]
    · rw [← converted?_eq_none_iff, hfirst, List.findSome?_eq_none_iff]
      simp only [converted?_eq_none_iff]
  · intro expression t h
    obtain ⟨u, hparse, hu⟩ := parse_optional h
    obtain ⟨w, hw, hfirst⟩ := exists_join?_converted? hr (List.cons_ne_nil t [.scalar .absent])
      (normal_optional (normal_of_parse h))
    obtain rfl : u = w := Option.some.inj (hu.symm.trans hw)
    refine ⟨u, hparse, hu, fun setting raw => ?_⟩
    have hoptional : convert setting u raw = .ok ((converted? setting raw t).getD (.str raw)) := by
      rw [← converted?_eq_some_iff, hfirst, findSome?_optional]
    rw [hoptional, converted?]
    cases convert setting t raw <;> rfl

end

end

open Payloads.Integers in
theorem convert_join_sample :
    (∃ u, join? [.choice [Registry.evenHook.type, Registry.portType],
        .choice [.scalar .int, Registry.evenHook.type]] = some u ∧
      u.render = "Even | net.Port | int" ∧ convert "LIMIT" u "-7" = .ok (.int (-7))) ∧
    ∃ u, parse .sample "Optional[Even | net.Port]" = .ok u ∧
      u.render = "Even | net.Port | None" ∧ convert "LIMIT" u "-7" = .ok (.str "-7") := by
  have hfirst : parse .sample "Even | net.Port" =
      .ok (.choice [Registry.evenHook.type, Registry.portType]) :=
    parse_eq_ok.2 ⟨[⟨0, .name "Even"⟩, ⟨5, .bar⟩, ⟨7, .name "net.Port"⟩], rfl, rfl⟩
  have hsecond : parse .sample "int | Even" =
      .ok (.choice [.scalar .int, Registry.evenHook.type]) :=
    parse_eq_ok.2 ⟨[⟨0, .name "int"⟩, ⟨4, .bar⟩, ⟨6, .name "Even"⟩], rfl, rfl⟩
  constructor
  · obtain ⟨u, hu, h⟩ := (convert_join Registry.hooksNamed_sample).1
      [.choice [Registry.evenHook.type, Registry.portType],
        .choice [.scalar .int, Registry.evenHook.type]] (by simp) (by
      intro t ht
      rcases List.mem_cons.1 ht with rfl | ht
      · exact ⟨_, hfirst⟩
      · rw [List.mem_singleton.1 ht]
        exact ⟨_, hsecond⟩)
    refine ⟨u, hu, ?_, ((h "LIMIT" "-7").1 _).2 ⟨[_], _, [], rfl, rfl, ?_⟩⟩
    · cases hu
      rfl
    · intro b hb
      rw [List.mem_singleton.1 hb]
      exact ⟨_, rfl⟩
  · obtain ⟨u, hparse, hu, h⟩ := (convert_join Registry.hooksNamed_sample).2 _ _ hfirst
    refine ⟨u, hparse, ?_, h "LIMIT" "-7"⟩
    cases hu
    rfl

end TypedSettings
