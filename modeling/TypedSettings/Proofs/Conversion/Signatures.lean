import TypedSettings.Proofs.Conversion.Attribution

/-!
# Signatures are judged before the text is read

A hook can be called if it has one typed parameter (`BadSignature` says what else may be the case).
Converting to a hooked type goes on with the type of that parameter, and so along a chain of hooks
(`GoesOn`). One step of the chain passes on the fault of what follows, whatever the text is and
whatever the hooks make of it (`convert_hooked_signature`), and so does the whole chain
(`GoesOn.convert_signature`). Main statement: a text cannot bring to light or hide that a hook
cannot be called (`convert_signature_independent`).
-/

namespace TypedSettings

section
variable [Payloads]

/-- The parameters are not one typed parameter. -/
inductive BadSignature : List (Option SettingType) → SignatureFault → Prop where
  | count {parameters : List (Option SettingType)} : parameters.length ≠ 1 →
      BadSignature parameters .parameterCount
  | untyped : BadSignature [none] .untypedParameter

/-- Converting to the first type goes on, through the one typed parameter of each hook, with
converting to the second. -/
inductive GoesOn : SettingType → SettingType → Prop where
  | here (t : SettingType) : GoesOn t t
  | parameter {typeName : String} {invoke : Value → Except String Value} {p t : SettingType} :
      GoesOn p t → GoesOn (.hooked typeName [some p] invoke) t

/-- The chain of hooks that starts with the type reaches a hook that cannot be called, which makes
the type of that name. -/
def Breaks (t : SettingType) (typeName : String) (fault : SignatureFault) : Prop :=
  ∃ parameters invoke, GoesOn t (.hooked typeName parameters invoke) ∧
    BadSignature parameters fault

section
variable {setting other raw typeName faulty : String} {fault : SignatureFault}
  {parameters : List (Option SettingType)} {invoke : Value → Except String Value}
  {t u p : SettingType}

/-! ## One hook -/

/-- A hook has one typed parameter or it cannot be called. -/
theorem signature_cases (parameters : List (Option SettingType)) :
    (∃ p, parameters = [some p]) ∨ ∃ fault, BadSignature parameters fault := by
  match parameters with
  | [] => exact .inr ⟨_, .count (by simp)⟩
  | [none] => exact .inr ⟨_, .untyped⟩
  | [some p] => exact .inl ⟨p, rfl⟩
  | _ :: _ :: _ => exact .inr ⟨_, .count (by simp)⟩

/-- A hook that cannot be called is reported for every text. -/
theorem convert_of_badSignature (h : BadSignature parameters fault) :
    convert setting (.hooked typeName parameters invoke) raw =
      .error (.signature setting typeName fault) := by
  cases h with
  | untyped => rfl
  | count hlen =>
    match parameters, hlen with
    | [], _ => rfl
    | [_], hlen => exact absurd rfl hlen
    | _ :: _ :: _, _ => rfl

/-- A hook that can be called reports a fault exactly if its argument does: what the hook refuses is
a mismatch. -/
theorem convert_hooked_signature :
    convert setting (.hooked typeName [some p] invoke) raw =
        .error (.signature other faulty fault) ↔
      convert setting p raw = .error (.signature other faulty fault) := by
  have hstep : convert setting (.hooked typeName [some p] invoke) raw =
      callHook setting raw typeName invoke (convert setting p raw) := rfl
  rw [hstep]
  constructor
  · intro h
    rcases callHook_eq_error h with h | ⟨_, _, _, _, h⟩
    · exact h
    · cases h
  · intro h
    rw [h, callHook]

/-! ## The chain of hooks -/

/-- A fault at the end of a chain comes to light at its start. -/
theorem GoesOn.convert_signature (h : GoesOn t u)
    (hu : convert setting u raw = .error (.signature other faulty fault)) :
    convert setting t raw = .error (.signature other faulty fault) := by
  induction h with
  | here => exact hu
  | parameter _ ih => exact convert_hooked_signature.2 (ih hu)

theorem Breaks.convert_signature (h : Breaks t typeName fault) (setting raw : String) :
    convert setting t raw = .error (.signature setting typeName fault) := by
  obtain ⟨parameters, invoke, hchain, hbad⟩ := h
  exact hchain.convert_signature (convert_of_badSignature hbad)

theorem Breaks.parameter (h : Breaks p faulty fault) :
    Breaks (.hooked typeName [some p] invoke) faulty fault := by
  obtain ⟨parameters, call, hchain, hbad⟩ := h
  exact ⟨parameters, call, .parameter hchain, hbad⟩

/-! ## Other types -/

theorem Scalar.convert_ne_signature (s : Scalar) (setting raw other typeName : String)
    (fault : SignatureFault) :
    s.convert setting raw ≠ .error (.signature other typeName fault) := by
  intro h
  cases s with
  | bool => cases h
  | absent => cases h
  | str => cases h
  | int | float | decimal =>
    simp only [Scalar.convert] at h
    split at h <;> cases h

/-- A choice or a container, whose alternatives or items may be of hooked types, never reports that
a hook cannot be called. -/
theorem convert_ne_signature (ht : (∃ ts, t = .choice ts) ∨ t.shape?.isSome = true) :
    convert setting t raw ≠ .error (.signature other typeName fault) := by
  intro h
  rcases ht with ⟨ts, rfl⟩ | hshape
  · cases convert_choice_eq_error h
  · obtain ⟨shape, hshape⟩ := Option.isSome_iff_exists.1 hshape
    rcases convert_container_eq_error hshape h with h | h <;> cases h

/-! ## All types -/

/-- A fault that comes to light is one that the chain of hooks reaches. -/
theorem breaks_of_convert {t : SettingType}
    (h : convert setting t raw = .error (.signature other typeName fault)) :
    Breaks t typeName fault := by
  match t with
  | .scalar s => exact absurd h (s.convert_ne_signature _ _ _ _ _)
  | .built c =>
    rw [convert] at h
    split at h <;> cases h
  | .bare _ => exact absurd h (convert_ne_signature (.inr rfl))
  | .listOf _ => exact absurd h (convert_ne_signature (.inr rfl))
  | .tupleOf _ => exact absurd h (convert_ne_signature (.inr rfl))
  | .setOf _ => exact absurd h (convert_ne_signature (.inr rfl))
  | .mapOf _ _ => exact absurd h (convert_ne_signature (.inr rfl))
  | .choice ts => exact absurd h (convert_ne_signature (.inl ⟨ts, rfl⟩))
  | .hooked name parameters invoke =>
    rcases signature_cases parameters with ⟨p, rfl⟩ | ⟨own, hbad⟩
    · exact (breaks_of_convert (convert_hooked_signature.1 h)).parameter
    · rw [convert_of_badSignature hbad] at h
      cases h
      exact ⟨parameters, invoke, .here _, hbad⟩

/-- Either the chain of hooks reaches one that cannot be called, and then every text is answered by
the fault of this hook, or it reaches none, and then no text is answered by such a fault. Choices
and containers are never answered so. -/
theorem convert_signature_independent (setting : String) (t : SettingType) :
    ((∃ typeName fault, Breaks t typeName fault ∧
        ∀ raw, convert setting t raw = .error (.signature setting typeName fault)) ∨
      (∀ typeName fault, ¬ Breaks t typeName fault) ∧
        ∀ raw other typeName fault,
          convert setting t raw ≠ .error (.signature other typeName fault)) ∧
    ((∃ ts, t = .choice ts) ∨ t.shape?.isSome = true →
      ∀ raw other typeName fault,
        convert setting t raw ≠ .error (.signature other typeName fault)) := by
  refine ⟨?_, fun ht raw other typeName fault => convert_ne_signature ht⟩
  by_cases hbreaks : ∃ typeName fault, Breaks t typeName fault
  · obtain ⟨typeName, fault, h⟩ := hbreaks
    exact .inl ⟨typeName, fault, h, h.convert_signature setting⟩
  · refine .inr ⟨fun typeName fault h => hbreaks ⟨typeName, fault, h⟩, ?_⟩
    intro raw other typeName fault h
    exact hbreaks ⟨typeName, fault, breaks_of_convert h⟩

end

end

open Payloads.Integers in
/-- The hook of `Outer` is handed what the hook of `Inner` makes of a text, and that one takes no
parameter; in a list or a choice nothing of this comes to light. -/
theorem convert_signature_independent_chain :
    let inner : SettingType := .hooked "Inner" [] .ok
    let outer : SettingType := .hooked "Outer" [some inner] fun _ => .error "refused"
    (∀ raw, convert "S" outer raw = .error (.signature "S" "Inner" .parameterCount)) ∧
      convert "S" (.choice [outer]) "1" ≠ .error (.signature "S" "Inner" .parameterCount) ∧
      convert "S" (.listOf outer) "[1]" ≠ .error (.signature "S" "Inner" .parameterCount) := by
  intro inner outer
  have hbreaks : Breaks outer "Inner" .parameterCount :=
    ⟨[], .ok, .parameter (.here _), .count (by decide)⟩
  refine ⟨?_, ?_, ?_⟩
  · rcases (convert_signature_independent "S" outer).1 with ⟨name, fault, _, h⟩ | ⟨hnone, _⟩
    · have hfault := (h "").symm.trans (hbreaks.convert_signature "S" "")
      cases hfault
      exact h
    · exact absurd hbreaks (hnone _ _)
  · exact (convert_signature_independent "S" (.choice [outer])).2 (.inl ⟨_, rfl⟩) _ _ _ _
  · exact (convert_signature_independent "S" (.listOf outer)).2 (.inr rfl) _ _ _ _

end TypedSettings
