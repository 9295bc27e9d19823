import Mathlib.Data.List.Forall2
import TypedSettings.Proofs.Conversion.Containers
import TypedSettings.Types.Registry

/-!
# What checked items stem from

Each item of a checked container stems from one item of the literal (`forall₂_of_mapM`,
`exists_of_mem_mapM`), each entry of a checked map from one entry (`exists_of_mem_entries`), and
what a hooked type makes of a text is what its hook makes of the argument
(`convert_hooked_eq_ok_iff`), and so with an item (`exists_invoke_of_check`).
-/

namespace TypedSettings

open Value

variable [Payloads]

section
variable {α β : Type} {f : α → Option β} {xs : List α} {ys : List β}

omit [Payloads] in
theorem forall₂_of_mapM (h : xs.mapM f = some ys) :
    List.Forall₂ (fun x y => f x = some y) xs ys := by
  induction xs generalizing ys with
  | nil =>
    cases h
    exact .nil
  | cons x xs ih =>
    simp only [List.mapM_cons, Option.bind_eq_bind, Option.bind_eq_some_iff, Option.pure_def,
      Option.some.injEq] at h
    obtain ⟨z, hz, zs, hzs, rfl⟩ := h
    exact .cons hz (ih hzs)

omit [Payloads] in
theorem mapM_of_forall₂ (h : List.Forall₂ (fun x y => f x = some y) xs ys) :
    xs.mapM f = some ys := by
  induction h with
  | nil => rfl
  | cons hx _ ih => simp [List.mapM_cons, hx, ih]

omit [Payloads] in
theorem exists_of_forall₂ {R : α → β → Prop} (h : List.Forall₂ R xs ys) {y : β} (hy : y ∈ ys) :
    ∃ x ∈ xs, R x y := by
  induction h with
  | nil => cases hy
  | cons hz _ ih =>
    rcases List.mem_cons.1 hy with rfl | hy
    · exact ⟨_, List.mem_cons_self, hz⟩
    · obtain ⟨w, hw, hwy⟩ := ih hy
      exact ⟨w, List.mem_cons_of_mem _ hw, hwy⟩

omit [Payloads] in
theorem exists_of_mem_mapM (h : xs.mapM f = some ys) {y : β} (hy : y ∈ ys) :
    ∃ x ∈ xs, f x = some y :=
  exists_of_forall₂ (forall₂_of_mapM h) hy

omit [Payloads] in
/-- If something becomes of all items, then of each of them. -/
theorem exists_of_mapM_mem (h : xs.mapM f = some ys) {x : α} (hx : x ∈ xs) : ∃ y, f x = some y := by
  obtain ⟨y, -, hy⟩ := exists_of_forall₂ (forall₂_of_mapM h).flip hx
  exact ⟨y, hy⟩

omit [Payloads] in
/-- What holds of the items, and of what becomes of one that it holds of, holds of all results. -/
theorem forall_of_mapM {P : α → Prop} {Q : β → Prop} (h : xs.mapM f = some ys)
    (hxs : ∀ x ∈ xs, P x) (hstep : ∀ {x y}, f x = some y → P x → Q y) : ∀ y ∈ ys, Q y := by
  intro y hy
  obtain ⟨x, hx, hxy⟩ := exists_of_mem_mapM h hy
  exact hstep hxy (hxs x hx)

end

section
variable {f g : Value → Option Value} {es fs : List (Value × Value)}

/-- The entries stem one from the other, by their keys and by their contents. -/
theorem forall₂_of_entries
    (h : es.mapM (fun e => (f e.1).bind fun k => (g e.2).map fun u => (k, u)) = some fs) :
    List.Forall₂ (fun e x => f e.1 = some x.1 ∧ g e.2 = some x.2) es fs := by
  refine (forall₂_of_mapM h).imp fun e x hex => ?_
  simp only [Option.bind_eq_some_iff, Option.map_eq_some_iff] at hex
  obtain ⟨k, hk, c, hc, rfl⟩ := hex
  exact ⟨hk, hc⟩

/-- An entry of checked keys and contents stems from one entry. -/
theorem exists_of_mem_entries
    (h : es.mapM (fun e => (f e.1).bind fun k => (g e.2).map fun u => (k, u)) = some fs)
    {x : Value × Value} (hx : x ∈ fs) : ∃ e ∈ es, f e.1 = some x.1 ∧ g e.2 = some x.2 :=
  exists_of_forall₂ (forall₂_of_entries h) hx

/-- A key or a content of a map that is built of checked entries stems from one of the literal's. -/
theorem exists_of_mem_mapOf
    (h : es.mapM (fun e => (f e.1).bind fun k => (g e.2).map fun u => (k, u)) = some fs)
    {w : Value} (hw : w ∈ (mapOf fs).children) :
    ∃ x ∈ (map es).children, f x = some w ∨ g x = some w := by
  obtain ⟨x, hx, hw⟩ := mem_children_map.1 hw
  obtain ⟨⟨a, ha, hkey⟩, ⟨b, hb, hcontent⟩⟩ := mem_mapOf rfl hx
  rcases hw with rfl | rfl
  · obtain ⟨e, he, hk, _⟩ := exists_of_mem_entries h ha
    exact ⟨e.1, mem_children_map.2 ⟨e, he, .inl rfl⟩, .inl (hkey ▸ hk)⟩
  · obtain ⟨e, he, _, hc⟩ := exists_of_mem_entries h hb
    exact ⟨e.2, mem_children_map.2 ⟨e, he, .inr rfl⟩, .inr (hcontent ▸ hc)⟩

end

section
variable {setting raw : String} {t : SettingType} {ts : List SettingType} {v w : Value}

theorem exists_of_checkFirst (h : checkFirst setting ts v = some w) :
    ∃ t ∈ ts, check setting t v = some w := by
  induction ts with
  | nil => cases h
  | cons t ts ih =>
    rw [checkFirst] at h
    split at h
    · cases h
      exact ⟨t, List.mem_cons_self, ‹_›⟩
    · obtain ⟨u, hu, h⟩ := ih h
      exact ⟨u, List.mem_cons_of_mem _ hu, h⟩

theorem callHook_eq_ok_iff {typeName : String} {invoke : Value → Except String Value}
    {argument : Except ConversionError Value} :
    callHook setting raw typeName invoke argument = .ok w ↔
      ∃ a, argument = .ok a ∧ invoke a = .ok w := by
  unfold callHook
  cases argument with
  | error e => simp
  | ok a => cases hinvoke : invoke a <;> simp [hinvoke]

/-- Only a hook with one typed parameter has an argument. -/
theorem convertArgument_eq_ok_iff {typeName : String} {parameters : List (Option SettingType)} :
    convertArgument setting typeName parameters raw = .ok v ↔
      ∃ p, parameters = [some p] ∧ convert setting p raw = .ok v := by
  match parameters with
  | [] => simp [convertArgument]
  | [none] => simp [convertArgument, convertParameter]
  | [some p] => simp [convertArgument, convertParameter]
  | _ :: _ :: _ => simp [convertArgument]

section
variable {typeName : String} {parameters : List (Option SettingType)}
  {invoke : Value → Except String Value}

theorem convert_of_check
    (h : check setting (.hooked typeName parameters invoke) v = some w) :
    convert setting (.hooked typeName parameters invoke) v.plain = .ok w := by
  rw [check_hooked] at h
  cases hconvert : convert setting (.hooked typeName parameters invoke) v.plain with
  | error e =>
    rw [hconvert] at h
    cases h
  | ok u =>
    rw [hconvert] at h
    cases h
    rfl

/-- What a text converts to is what the hook makes of its argument, and that is what the text
converts to by the type of the one parameter. -/
theorem convert_hooked_eq_ok_iff :
    convert setting (.hooked typeName parameters invoke) raw = .ok w ↔
      ∃ p a, parameters = [some p] ∧ convert setting p raw = .ok a ∧ invoke a = .ok w := by
  rw [convert, callHook_eq_ok_iff]
  simp only [convertArgument_eq_ok_iff]
  constructor
  · rintro ⟨a, ⟨p, hp, ha⟩, hw⟩
    exact ⟨p, a, hp, ha, hw⟩
  · rintro ⟨p, a, hp, ha, hw⟩
    exact ⟨a, ⟨p, hp, ha⟩, hw⟩

/-- A type that has a hook which counts is converted to by that hook. -/
theorem convert_resolve_eq_ok_iff {registry : Registry} {name : String} {hook : Hook}
    (hhook : registry.hook? name = some hook) (ht : registry.resolve name = some t) :
    convert setting t raw = .ok w ↔
      ∃ p a, hook.parameters = [some p] ∧ convert setting p raw = .ok a ∧ hook.invoke a = .ok w := by
  rw [Registry.resolve, hhook] at ht
  cases ht
  exact convert_hooked_eq_ok_iff

/-- What an item of a hooked type becomes is what the hook returned. -/
theorem exists_invoke_of_check
    (h : check setting (.hooked typeName parameters invoke) v = some w) :
    ∃ a, invoke a = .ok w := by
  obtain ⟨_, a, _, _, ha⟩ := convert_hooked_eq_ok_iff.1 (convert_of_check h)
  exact ⟨a, ha⟩

end

end

end TypedSettings
