import TypedSettings.Proofs.Number.Parts
import TypedSettings.Proofs.Number.Scientific

/-!
# Doubles read back from their texts

The parts of a number are read as the double next to it (`Parts.HasValue.float_eq`). Main statement:
the text of every finite double reads back as the double (`readFloat_text`).
-/

namespace TypedSettings.Number

open Text Float.Model UnpackedFloat

section
variable {p : Parts} {n : ℕ} {e : ℤ}

theorem Parts.HasValue.value_eq (h : p.HasValue n e) :
    (ofDigits 10 (p.whole ++ p.fraction.getD []) *
      10 ^ (p.exponent.getD 0 - (p.fraction.getD []).length) : ℚ) = n * 10 ^ e := by
  obtain ⟨j, k, hn, he⟩ := h
  generalize ofDigits 10 (p.whole ++ p.fraction.getD []) = m at hn ⊢
  generalize p.exponent.getD 0 - (p.fraction.getD []).length = i at he ⊢
  have hn : (m : ℚ) * 10 ^ (j : ℤ) = n * 10 ^ (k : ℤ) := by
    rw [Nat.pow_eq, Nat.pow_eq] at hn
    exact_mod_cast hn
  have hexponents : (10 : ℚ) ^ i * 10 ^ (k : ℤ) = 10 ^ e * 10 ^ (j : ℤ) := by
    rw [← zpow_add₀ (by norm_num), he, zpow_add₀ (by norm_num)]
  have hpos : (10 : ℚ) ^ (j : ℤ) * 10 ^ (k : ℤ) ≠ 0 := by positivity
  refine mul_right_cancel₀ hpos ?_
  calc (m * 10 ^ i * (10 ^ (j : ℤ) * 10 ^ (k : ℤ)) : ℚ)
      = m * 10 ^ (j : ℤ) * (10 ^ i * 10 ^ (k : ℤ)) := by ring
    _ = n * 10 ^ (k : ℤ) * (10 ^ e * 10 ^ (j : ℤ)) := by rw [hn, hexponents]
    _ = n * 10 ^ e * (10 ^ (j : ℤ) * 10 ^ (k : ℤ)) := by ring

theorem Parts.HasValue.float_eq (h : p.HasValue n e) {x : Binary} (hx : x.IsDouble)
    (hv : x.Nearest (n * 10 ^ e)) : p.float = x.float .positive hx.pos :=
  nearestFloat_eq hx (h.value_eq ▸ hv)

theorem Parts.HasValue.ne_nil (h : p.HasValue n e) (hn : n ≠ 0) :
    (p.whole.isEmpty && (p.fraction.getD []).isEmpty) = false := by
  obtain ⟨j, k, hvalue, _⟩ := h
  rw [Bool.eq_false_iff]
  intro hempty
  rw [Bool.and_eq_true, List.isEmpty_iff, List.isEmpty_iff] at hempty
  rw [hempty.1, hempty.2, List.nil_append, ofDigits_nil, Nat.zero_mul] at hvalue
  have : 0 < n * Nat.pow 10 k := Nat.mul_pos (Nat.pos_of_ne_zero hn) (Nat.pow_pos (by norm_num))
  omega

end

/-- The text of a finite double reads back as the double. -/
theorem readFloat_text {l : FloatLayout} (hl : l.plusExponent = false) {x : Float}
    (hx : isFinite x = true) : readFloat (l.text x) = some x := by
  obtain ⟨p, htext, _, _, hzero, hvalue⟩ := exists_parts_text hl hx
  obtain ⟨y, hread, hback⟩ : ∃ y, readMagnitude p.chars = some y ∧
      (if signBit x then -y else y) = x := by
    by_cases hz : magnitudeBits x = 0
    · refine ⟨0, ?_, eq_zero_of_magnitudeBits hz⟩
      rw [hzero hz]
      rfl
    · have hdouble := Binary.isDouble_ofBits hz (of_decide_eq_true hx)
      have hnearest := Binary.nearest_shortest hdouble.pos l.tie
      have hdigits := hdouble.digits_ne_zero hnearest
      refine ⟨_, ?_, float_ofBits_magnitudeBits hz hx⟩
      rw [readMagnitude_chars, (hvalue hz hdigits).ne_nil hdigits, if_neg Bool.false_ne_true,
        (hvalue hz hdigits).float_eq hdouble hnearest]
  rw [htext]
  split
  · rename_i hsign
    rw [if_pos hsign] at hback
    rw [readFloat_minus, hread, Option.map_some, hback]
  · rename_i hsign
    rw [if_neg hsign] at hback
    rw [readFloat_chars, hread, hback]

end TypedSettings.Number
