import TypedSettings.Proofs.Conversion.Containers
import TypedSettings.Proofs.Definition.Keys
import TypedSettings.Proofs.Toml.Values

/-!
# Defaults and the types that they suggest

A default has the type that it suggests (`hasType_ofDefault`), and whatever an override of that type
converts to suggests the same type (`ofDefault_of_convert`). Main statement: the defaults of a
definition text are of the kinds that TOML has, and where there is no annotation they have the types
of their settings, and so have the overrides (`default_of_parse`).
-/

namespace TypedSettings

variable [Payloads]

namespace SettingType

variable {setting raw : String} {v w : Value}

/-- A default has the type that it suggests. No literal writes a decimal or a value of a user-defined
type. -/
theorem hasType_ofDefault (hdecimal : ∀ d, v ≠ .decimal d) (hcustom : ∀ c, v ≠ .custom c) :
    HasType (ofDefault v) v := by
  cases v with
  | decimal d => exact absurd rfl (hdecimal d)
  | custom c => exact absurd rfl (hcustom c)
  | _ => constructor

theorem ofDefault_of_scalar {s : Scalar} (hs : s ≠ .absent)
    (h : s.convert setting raw = .ok w) : ofDefault w = .scalar s := by
  cases s <;> simp only [Scalar.convert] at h <;> (try split at h) <;> cases h
  all_goals first | rfl | exact absurd rfl hs

theorem ofDefault_of_fits {shape : Shape} (h : shape.fits w = true) : ofDefault w = .bare shape := by
  cases shape <;> cases w <;> cases h <;> rfl

/-- Whatever an override converts to suggests the same type as the default. Without a default an
override is taken as it stands. -/
theorem ofDefault_of_convert (hv : v ≠ .absent)
    (h : convert setting (ofDefault v) raw = .ok w) : ofDefault w = ofDefault v := by
  cases v with
  | absent => exact absurd rfl hv
  | list | tuple | set | map => exact ofDefault_of_fits (fits_of_convert rfl h)
  | _ =>
    rw [ofDefault, convert] at h
    exact ofDefault_of_scalar (by decide) h

end SettingType

namespace Definition

variable {registry : Registry} {env : Environment} {text name : String} {definition : Definition}
  {s : Setting}

theorem ne_absent_of_isTomlKind {v : Value} (h : Toml.IsTomlKind v) : v ≠ .absent := by
  rintro rfl
  exact h

/-- A default is of a kind that TOML has, at every depth, unless only an annotation declares the
setting. Without an annotation it has the type of the setting, and whatever an override converts to
suggests this type. -/
theorem default_of_parse (h : parse registry env text = .ok definition)
    (hs : definition.find? name = some s) :
    (s.default.Everywhere Toml.IsTomlKind ∨ s.default = .absent ∧ s.annotation?.isSome = true) ∧
      (s.annotation? = none → HasType s.type s.default ∧
        ∀ raw w, convert name s.type raw = .ok w → SettingType.ofDefault w = s.type) := by
  obtain ⟨document, hdecodes, hbuilt⟩ := parse_eq_ok.1 h
  have hgives := gives_of_ofDeclarations hdecodes.ascending hbuilt hs
  have hkinds : s.default.Everywhere Toml.IsTomlKind ∨
      s.default = .absent ∧ s.annotation?.isSome = true := by
    rw [hgives.default, hgives.annotation?]
    cases hfind : document.defaults.find? name with
    | some t => exact .inl (hdecodes.ordered hfind).everywhere_toValue
    | none =>
      have hname : name ∈ definition.names := mem_names_iff.2 (by rw [hs]; rfl)
      have hkey := hasKey_iff.1 ((mem_names_iff_hasKey hdecodes.ascending hbuilt).1 hname).2
      rw [hfind] at hkey
      exact .inr ⟨rfl, hkey.resolve_left (by simp)⟩
  refine ⟨hkinds, fun hnone => ?_⟩
  have hkind := (hkinds.resolve_right fun habsent => by simp [hnone] at habsent).self
  rw [hgives.shaped (hgives.annotation? ▸ hnone)]
  refine ⟨SettingType.hasType_ofDefault ?_ ?_, fun raw w hw => ?_⟩
  · intro d hd
    rw [hd] at hkind
    exact hkind
  · intro c hc
    rw [hc] at hkind
    exact hkind
  · exact SettingType.ofDefault_of_convert (ne_absent_of_isTomlKind hkind) hw

end Definition

end TypedSettings
