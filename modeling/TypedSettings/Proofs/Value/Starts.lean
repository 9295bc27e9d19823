import TypedSettings.Proofs.Number.Parts
import TypedSettings.Proofs.Value.Inside

/-!
# How printed values start

The text of a value of a built-in kind starts with a digit or with one of a few marks and letters
(`starts_chars`), whatever texts and numbers are inside.
-/

namespace TypedSettings

open Text Number

namespace Value

/-- The characters other than digits that the text of a value may start with. -/
def startMarks : List Char :=
  ['N', 'T', 'F', 's', 'i', 'e', '-', '.', '[', '(', '\x7b', '\x27', '\x22']

/-- The characters start as the text of a value may start. -/
def Starts (s : List Char) : Prop :=
  ∃ c r, s = c :: r ∧ (c.isDigit = true ∨ c ∈ startMarks)

theorem starts_mark {c : Char} (hc : c ∈ startMarks) (r : List Char) : Starts (c :: r) :=
  ⟨c, r, rfl, .inr hc⟩

theorem starts_of_isDigit {s : List Char} (hs : s ≠ []) (h : ∀ c ∈ s, c.isDigit = true) :
    Starts s := by
  obtain ⟨c, r, rfl⟩ := List.exists_cons_of_ne_nil hs
  exact ⟨c, r, rfl, .inl (h c List.mem_cons_self)⟩

theorem Starts.append {s : List Char} (h : Starts s) (r : List Char) : Starts (s ++ r) := by
  obtain ⟨c, t, rfl, hc⟩ := h
  exact ⟨c, t ++ r, rfl, hc⟩

theorem starts_ofInt (n : Int) : Starts (ofInt n) := by
  unfold ofInt
  split
  · exact starts_mark (by decide) _
  · exact starts_of_isDigit (decimalDigits_ne_nil _) fun _ => isDigit_of_mem_decimalDigits

theorem starts_parts {p : Parts} (hp : p.isFloat = true) : Starts p.chars := by
  have hne : p.chars ≠ [] := by
    intro h
    simp only [Parts.chars, List.append_eq_nil_iff, Parts.fractionChars, Parts.exponentChars] at h
    obtain ⟨_, hfraction, hexponent⟩ := h
    cases hf : p.fraction with
    | some ds => simp [hf] at hfraction
    | none =>
      cases he : p.exponent with
      | some n => simp [he] at hexponent
      | none => simp [Parts.isFloat, hf, he] at hp
  obtain ⟨c, r, hc⟩ := List.exists_cons_of_ne_nil hne
  rw [hc]
  rcases p.head_chars c (by simp [hc]) with h | rfl | rfl
  · exact ⟨c, r, rfl, .inl h⟩
  · exact starts_mark (by decide) r
  · exact starts_mark (by decide) r

theorem starts_text (x : Float) : Starts (floatLayout.text x) := by
  by_cases hx : isFinite x = true
  · obtain ⟨p, hp, hf, _⟩ := exists_parts_text (l := floatLayout) rfl hx
    rw [hp]
    split
    · exact starts_mark (by decide) _
    · exact starts_parts hf
  · -- an infinity or no number
    unfold FloatLayout.text
    split
    · exact starts_mark (by decide) _
    · rename_i hnan
      have hinf : magnitudeBits x = 0x7FF0000000000000 := by
        simp only [isNotANumber, isFinite, decide_eq_true_eq, GT.gt] at hnan hx
        exact UInt64.le_antisymm (UInt64.not_lt.1 hnan) (UInt64.not_lt.1 hx)
      simp only [if_pos hinf]
      split <;> exact starts_mark (by decide) _

/-- A decimal has a digit in front of the point. -/
theorem starts_decimal (d : Decimal) : Starts d.chars := by
  unfold Decimal.chars
  dsimp only
  generalize hds : decimalDigits d.unscaled.natAbs = ds
  have hdigits : ∀ c ∈ List.replicate (d.scale + 1 - ds.length) '0' ++ ds, c.isDigit = true := by
    intro c hc
    rcases List.mem_append.1 hc with hc | hc
    · rw [List.eq_of_mem_replicate hc]
      rfl
    · exact isDigit_of_mem_decimalDigits (hds ▸ hc)
  have hlen : d.scale < (List.replicate (d.scale + 1 - ds.length) '0' ++ ds).length := by
    rw [List.length_append, List.length_replicate]
    omega
  generalize List.replicate (d.scale + 1 - ds.length) '0' ++ ds = padded at hdigits hlen
  have hwhole : Starts (padded.take (padded.length - d.scale)) := by
    refine starts_of_isDigit ?_ fun c hc => hdigits c (List.mem_of_mem_take hc)
    rw [Ne, ← List.length_eq_zero_iff, List.length_take]
    omega
  split
  · exact starts_mark (by decide) _
  · exact hwhole.append _

variable [Payloads]

/-- The text of a built-in value starts with a digit or with one of a few characters. -/
theorem starts_chars {v : Value} (hv : v.IsBuiltIn) : Starts v.chars := by
  cases v with
  | absent => exact starts_mark (by decide) _
  | bool b => cases b <;> exact starts_mark (by decide) _
  | int n => exact starts_ofInt n.toInt
  | float x => exact starts_text x
  | decimal d => exact starts_decimal d
  | str s =>
    refine ⟨quoteFor s.toList, _, rfl, .inr ?_⟩
    unfold quoteFor
    split <;> decide
  | list vs => exact starts_mark (by decide) _
  | tuple vs =>
    rw [chars]
    split <;> exact starts_mark (by decide) _
  | set vs =>
    rw [chars]
    split <;> exact starts_mark (by decide) _
  | map es => exact starts_mark (by decide) _
  | custom c => exact absurd rfl (hv c)

end Value

end TypedSettings
