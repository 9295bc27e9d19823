import TypedSettings.Proofs.Conversion.Containers
import TypedSettings.Proofs.Types.Registered

/-!
# Errors belong to the setting and to the whole text

Converting goes on with other texts inside containers and with other types inside choices and hooks,
and an error of any of these could come to light. One inversion lemma for each kind of type says
which errors it reports (`ofLiteral_eq_error`, `convert_choice_eq_error`, `convert_hooked_eq_error`),
and along the parameters of hooks every error stays one of the setting and of its whole text
(`owned_of_convert`). Main statement: whose error it is and what it names, for every type
(`convert_error_attributed`).
-/

namespace TypedSettings

section
variable [Payloads]

/-- The error is one of the setting, and it has no text other than the given one. -/
inductive Owned (setting raw : String) : ConversionError → Prop where
  | mismatch (expected : String) : Owned setting raw (.mismatch setting raw expected)
  | signature (typeName : String) (fault : SignatureFault) :
      Owned setting raw (.signature setting typeName fault)
  | decimal (cause : DecimalError) : Owned setting raw (.decimal setting raw cause)

section
variable {setting raw : String} {e : ConversionError}

omit [Payloads] in
theorem Owned.setting_eq (h : Owned setting raw e) : e.setting = setting := by
  cases h <;> rfl

omit [Payloads] in
/-- Only an error in a hook's signature does not depend on the text. -/
theorem Owned.raw?_eq (h : Owned setting raw e) : e.raw? = some raw ∨
    e.raw? = none ∧ ∃ typeName fault, e = .signature setting typeName fault := by
  cases h with
  | mismatch => exact .inl rfl
  | signature typeName fault => exact .inr ⟨rfl, typeName, fault, rfl⟩
  | decimal => exact .inl rfl

/-! ## What each kind of type reports -/

theorem Scalar.owned_of_convert {s : Scalar} (h : s.convert setting raw = .error e) :
    Owned setting raw e := by
  unfold Scalar.convert at h
  split at h
  · cases h
  · cases h
  · cases h
  · split at h <;> cases h
    exact .mismatch _
  · split at h <;> cases h
    exact .mismatch _
  · split at h <;> cases h
    exact .decimal _

/-- A text that is no container of the kind is told the shape or the whole type; what was found in
its items is not told. -/
theorem ofLiteral_eq_error {shape : Shape} {whole : String} {f : Value → Option Value}
    (h : ofLiteral setting raw shape whole f = .error e) :
    e = .mismatch setting raw shape.name ∨ e = .mismatch setting raw whole := by
  unfold ofLiteral at h
  split at h
  · cases h
    exact .inl rfl
  · split at h
    · split at h <;> cases h
      exact .inr rfl
    · cases h
      exact .inl rfl

theorem convert_choice_eq_error {ts : List SettingType}
    (h : convert setting (.choice ts) raw = .error e) :
    e = .mismatch setting raw (SettingType.choice ts).render := by
  rw [convert] at h
  split at h <;> cases h
  rfl

/-- An argument that failed is passed on; one that the hook refuses has not the hook's type. -/
theorem callHook_eq_error {typeName : String} {invoke : Value → Except String Value}
    {argument : Except ConversionError Value}
    (h : callHook setting raw typeName invoke argument = .error e) :
    argument = .error e ∨ ∃ v reason, argument = .ok v ∧ invoke v = .error reason ∧
      e = .mismatch setting raw typeName := by
  cases argument with
  | error other =>
    cases h
    exact .inl rfl
  | ok v =>
    rw [callHook] at h
    split at h
    · cases h
    · rename_i reason hrefused
      cases h
      exact .inr ⟨v, reason, rfl, hrefused, rfl⟩

/-- The argument of a hook that has not one typed parameter. -/
theorem convertArgument_of_ne {typeName : String} {parameters : List (Option SettingType)}
    (h : ∀ p, parameters ≠ [some p]) :
    ∃ fault, convertArgument setting typeName parameters raw =
      .error (.signature setting typeName fault) := by
  match parameters with
  | [] => exact ⟨_, rfl⟩
  | [none] => exact ⟨_, rfl⟩
  | [some p] => exact absurd rfl (h p)
  | _ :: _ :: _ => exact ⟨_, rfl⟩

/-- A hook without one typed parameter is at fault itself; of the others the argument fails, or the
hook refuses it. -/
theorem convert_hooked_eq_error {typeName : String} {parameters : List (Option SettingType)}
    {invoke : Value → Except String Value}
    (h : convert setting (.hooked typeName parameters invoke) raw = .error e) :
    (∃ fault, e = .signature setting typeName fault ∧ ∀ p, parameters ≠ [some p]) ∨
      ∃ p, parameters = [some p] ∧ (convert setting p raw = .error e ∨
        ∃ v reason, convert setting p raw = .ok v ∧ invoke v = .error reason ∧
          e = .mismatch setting raw typeName) := by
  rw [convert] at h
  by_cases hone : ∃ p, parameters = [some p]
  · obtain ⟨p, rfl⟩ := hone
    have hargument : convertArgument setting typeName [some p] raw = convert setting p raw := rfl
    rw [hargument] at h
    exact .inr ⟨p, rfl, callHook_eq_error h⟩
  · have hne : ∀ p, parameters ≠ [some p] := fun p hp => hone ⟨p, hp⟩
    obtain ⟨fault, hfault⟩ := convertArgument_of_ne hne
    rw [hfault] at h
    cases h
    exact .inl ⟨fault, rfl, hne⟩

/-! ## All types -/

theorem convert_container_eq_error {t : SettingType} {shape : Shape} (hs : t.shape? = some shape)
    (h : convert setting t raw = .error e) :
    e = .mismatch setting raw shape.name ∨ e = .mismatch setting raw t.render := by
  rw [convert_eq_ofLiteral hs] at h
  exact ofLiteral_eq_error h

theorem owned_of_container {t : SettingType} {shape : Shape} (hs : t.shape? = some shape)
    (h : convert setting t raw = .error e) : Owned setting raw e := by
  rcases convert_container_eq_error hs h with rfl | rfl
  · exact .mismatch _
  · exact .mismatch _

/-- Whatever is converted to, the error is of the setting and of the text. No error of another type
is passed on but that of a hook's parameter, and the induction is along these. -/
theorem owned_of_convert {t : SettingType} (h : convert setting t raw = .error e) :
    Owned setting raw e := by
  match t with
  | .scalar s => exact Scalar.owned_of_convert h
  | .built c =>
    rw [convert] at h
    split at h <;> cases h
    exact .mismatch _
  | .bare _ => exact owned_of_container rfl h
  | .listOf _ => exact owned_of_container rfl h
  | .tupleOf _ => exact owned_of_container rfl h
  | .setOf _ => exact owned_of_container rfl h
  | .mapOf _ _ => exact owned_of_container rfl h
  | .choice _ =>
    rw [convert_choice_eq_error h]
    exact .mismatch _
  | .hooked typeName parameters invoke =>
    rcases convert_hooked_eq_error h with ⟨fault, rfl, _⟩ | ⟨p, rfl, hp | ⟨_, _, _, _, rfl⟩⟩
    · exact .signature typeName fault
    · exact owned_of_convert hp
    · exact .mismatch typeName

/-- An error is of the setting and, unless a hook's signature is at fault, of the whole text. A
choice is expected as a whole; a container is expected in its shape or as a whole; and a hooked type
is at fault itself, or its hook refuses the argument, or the error is that of converting to its
parameter's type. -/
theorem convert_error_attributed {t : SettingType} (h : convert setting t raw = .error e) :
    e.setting = setting ∧
    (e.raw? = some raw ∨
      e.raw? = none ∧ ∃ typeName fault, e = .signature setting typeName fault) ∧
    (∀ ts, t = .choice ts → e = .mismatch setting raw t.render) ∧
    (∀ shape, t.shape? = some shape →
      e = .mismatch setting raw shape.name ∨ e = .mismatch setting raw t.render) ∧
    ∀ typeName parameters invoke, t = .hooked typeName parameters invoke →
      (∃ fault, e = .signature setting typeName fault ∧ ∀ p, parameters ≠ [some p]) ∨
      ∃ p, parameters = [some p] ∧ (convert setting p raw = .error e ∨
        ∃ v reason, convert setting p raw = .ok v ∧ invoke v = .error reason ∧
          e = .mismatch setting raw typeName) := by
  have howned := owned_of_convert h
  refine ⟨howned.setting_eq, howned.raw?_eq, ?_, ?_, ?_⟩
  · rintro ts rfl
    exact convert_choice_eq_error h
  · intro shape hs
    exact convert_container_eq_error hs h
  · rintro typeName parameters invoke rfl
    exact convert_hooked_eq_error h

end

end

open Payloads.Integers in
/-- The error of the parameter's type comes to light, and that of the item 3 in it does not. -/
theorem convert_error_attributed_nested :
    ∃ e, convert "EVENS" (.hooked "Evens" [some (.listOf Registry.evenHook.type)] .ok) "[2, 3]" =
        .error e ∧
      e.setting = "EVENS" ∧ e.raw? = some "[2, 3]" ∧
      convert "EVENS" (.listOf Registry.evenHook.type) "[2, 3]" = .error e ∧
      e = .mismatch "EVENS" "[2, 3]" "list[Even]" := by
  have h : convert "EVENS" (.hooked "Evens" [some (.listOf Registry.evenHook.type)] .ok) "[2, 3]" =
      .error (.mismatch "EVENS" "[2, 3]" "list[Even]") := rfl
  obtain ⟨hsetting, hraw, _, _, hhooked⟩ := convert_error_attributed h
  refine ⟨_, h, hsetting, ?_, ?_, rfl⟩
  · exact hraw.resolve_right fun hnone => by cases hnone.1
  · rcases hhooked _ _ _ rfl with ⟨_, hfault, _⟩ | ⟨p, hp, hargument | ⟨_, _, _, hrefused, _⟩⟩
    · cases hfault
    · cases hp
      exact hargument
    · cases hrefused

end TypedSettings
