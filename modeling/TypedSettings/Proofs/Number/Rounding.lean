import Mathlib.Algebra.Order.Field.Power
import Mathlib.Data.Rat.Floor
import Mathlib.Tactic.FieldSimp
import Mathlib.Tactic.Linarith
import Mathlib.Tactic.NormNum
import Mathlib.Tactic.Positivity
import Mathlib.Tactic.Ring
import TypedSettings.Proofs.Number.Nearest

/-!
# Rounding to the nearest double

The arithmetic of doubles keeps a mantissa, an exponent and two residual bits that say where the
exact number lies behind the mantissa (`Stands`), which shifting to a greater exponent preserves
(`Stands.shiftToExponent`). Main statements: whatever lies between the midpoints to the neighbouring
doubles is rounded to the double (`roundWithAccuracy_eq`), and so are the products and the quotients
of two numbers (`mul_eq`, `div_eq`).
-/

namespace TypedSettings.Number

open Float.Model UnpackedFloat

/-! ## Residual bits -/

/-- What the residual bits say about the part of a number behind its mantissa. -/
def Residue (f : ℚ) : (roundBit stickyBit : Bool) → Prop
  | false, false => f = 0
  | false, true => 0 < f ∧ f < 1 / 2
  | true, false => f = 1 / 2
  | true, true => 1 / 2 < f ∧ f < 1

theorem Residue.bounds {f : ℚ} {r s : Bool} (h : Residue f r s) : 0 ≤ f ∧ f < 1 := by
  cases r <;> cases s <;> simp only [Residue] at h <;> constructor <;> linarith

/-- One bit more in front. -/
theorem Residue.half {f : ℚ} {r s : Bool} (h : Residue f r s) :
    Residue (f / 2) false (r || s) ∧ Residue ((f + 1) / 2) true (r || s) := by
  cases r <;> cases s <;> simp only [Residue, Bool.or_false, Bool.or_true] at h ⊢
  · subst h
    norm_num
  · exact ⟨⟨by linarith, by linarith⟩, by linarith, by linarith⟩
  · subst h
    norm_num
  · exact ⟨⟨by linarith, by linarith⟩, by linarith, by linarith⟩

/-- The mantissa with its residual bits stands for the number. -/
def Stands (em : ExtendedMantissa) (x : ℚ) : Prop :=
  Residue (x - em.mantissa) em.roundBit em.stickyBit

section
variable {em : ExtendedMantissa} {x : ℚ}

theorem stands_exact (m : ℕ) : Stands (.ofMantissaAndAccuracy m .exact) m := by
  simp [Stands, Residue, ExtendedMantissa.ofMantissaAndAccuracy]

theorem Stands.bounds (h : Stands em x) : em.mantissa ≤ x ∧ x < em.mantissa + 1 := by
  have := Residue.bounds h
  constructor <;> linarith

theorem Stands.shiftRightOne (h : Stands em x) : Stands em.shiftRightOne (x / 2) := by
  have hm : (em.mantissa : ℚ) = 2 * (em.mantissa / 2 : ℕ) + (em.mantissa % 2 : ℕ) := by
    exact_mod_cast (Nat.div_add_mod em.mantissa 2).symm
  unfold Stands ExtendedMantissa.shiftRightOne
  rcases Nat.mod_two_eq_zero_or_one em.mantissa with h2 | h2 <;> rw [h2] at hm ⊢
  · have hx : x / 2 - (em.mantissa / 2 : ℕ) = (x - em.mantissa) / 2 := by
      push_cast at hm
      linarith
    rw [hx]
    exact (Residue.half h).1
  · have hx : x / 2 - (em.mantissa / 2 : ℕ) = (x - em.mantissa + 1) / 2 := by
      push_cast at hm
      linarith
    rw [hx]
    exact (Residue.half h).2

theorem Stands.shiftRight (h : Stands em x) (n : ℕ) : Stands (em >>> n) (x / 2 ^ n) := by
  change Stands (n.repeat ExtendedMantissa.shiftRightOne em) _
  induction n with
  | zero => simpa [Nat.repeat] using h
  | succ n ih =>
    rw [pow_succ, ← div_div]
    exact ih.shiftRightOne

/-- Rounding goes to the even one of two neighbours at the same distance. -/
theorem Stands.roundedMantissa_eq (h : Stands em x) {k : ℕ} (hl : k - 1 / 2 ≤ x)
    (hh : x ≤ k + 1 / 2) (hodd : k % 2 = 1 → k - 1 / 2 < x ∧ x < k + 1 / 2) :
    em.roundedMantissa = k := by
  have hb := h.bounds
  obtain ⟨m, r, s⟩ := em
  have hlow : m < k + 1 := by
    have : (m : ℚ) < k + 1 := by linarith
    exact_mod_cast this
  have hhigh : k < m + 2 := by
    have : (k : ℚ) < m + 2 := by linarith
    exact_mod_cast this
  -- the number lies between two mantissas, and halfway the even one of them is taken
  obtain rfl | rfl : k = m ∨ k = m + 1 := by omega
  · cases r <;> cases s <;> simp only [Stands, Residue] at h
    · rfl
    · rfl
    · have : k % 2 = 0 := by
        by_contra hk
        have := (hodd (by omega)).2
        linarith
      simp [ExtendedMantissa.roundedMantissa, ExtendedMantissa.accuracy,
        Accuracy.roundToNearestEven, this]
    · exfalso
      linarith
  · push_cast at hl hh
    cases r <;> cases s <;> simp only [Stands, Residue] at h
    · exfalso
      linarith
    · exfalso
      linarith
    · have : (m + 1) % 2 = 0 := by
        by_contra hk
        have := (hodd (by omega)).1
        push_cast at this
        linarith
      simp only [ExtendedMantissa.roundedMantissa, ExtendedMantissa.accuracy,
        Accuracy.roundToNearestEven]
      omega
    · rfl

end

/-! ## Doubles and the numbers next to them -/

/-- A positive finite double: its mantissa has 53 bits, or fewer at the least exponent. -/
structure Binary.IsDouble (x : Binary) : Prop where
  pos : 0 < x.mantissa
  lt : x.mantissa < 2 ^ 53
  normal : 2 ^ 52 ≤ x.mantissa ∨ x.exponent = -1074
  least_le : -1074 ≤ x.exponent
  le_greatest : x.exponent ≤ 971
  narrow : x.narrowBelow = true ↔ x.mantissa = 2 ^ 52 ∧ -1074 < x.exponent

/-- The midpoint to the double below. -/
def Binary.low (x : Binary) : ℚ :=
  (x.mantissa - if x.narrowBelow then 1 / 4 else 1 / 2) * 2 ^ x.exponent

/-- The midpoint to the double above. -/
def Binary.high (x : Binary) : ℚ := (x.mantissa + 1 / 2) * 2 ^ x.exponent

/-- The number lies between the midpoints to the neighbouring doubles, the midpoints included
exactly when the mantissa is even. -/
def Binary.Nearest (x : Binary) (v : ℚ) : Prop :=
  if x.mantissa % 2 = 0 then x.low ≤ v ∧ v ≤ x.high else x.low < v ∧ v < x.high

section
variable {x : Binary} {v : ℚ}

theorem Binary.Nearest.bounds (h : x.Nearest v) : x.low ≤ v ∧ v ≤ x.high := by
  unfold Binary.Nearest at h
  split at h
  · exact h
  · exact ⟨h.1.le, h.2.le⟩

theorem Binary.Nearest.strict (h : x.Nearest v) (hodd : x.mantissa % 2 = 1) :
    x.low < v ∧ v < x.high := by
  rwa [Binary.Nearest, if_neg (by omega)] at h

theorem Binary.Nearest.scaled (h : x.Nearest v) :
    x.mantissa - 1 / 2 ≤ v / 2 ^ x.exponent ∧ v / 2 ^ x.exponent ≤ x.mantissa + 1 / 2 := by
  have hpos : (0 : ℚ) < 2 ^ x.exponent := by positivity
  obtain ⟨hl, hh⟩ := h.bounds
  rw [Binary.low, ← le_div_iff₀ hpos] at hl
  rw [Binary.high, ← div_le_iff₀ hpos] at hh
  refine ⟨?_, hh⟩
  split at hl <;> linarith

theorem Binary.Nearest.scaled_strict (h : x.Nearest v) (hodd : x.mantissa % 2 = 1) :
    x.mantissa - 1 / 2 < v / 2 ^ x.exponent ∧ v / 2 ^ x.exponent < x.mantissa + 1 / 2 := by
  have hpos : (0 : ℚ) < 2 ^ x.exponent := by positivity
  obtain ⟨hl, hh⟩ := h.strict hodd
  rw [Binary.low, ← lt_div_iff₀ hpos] at hl
  rw [Binary.high, ← div_lt_iff₀ hpos] at hh
  refine ⟨?_, hh⟩
  split at hl <;> linarith

theorem Binary.nearest_of_between (hl : x.low < v) (hh : v < x.high) : x.Nearest v := by
  unfold Binary.Nearest
  split
  · exact ⟨hl.le, hh.le⟩
  · exact ⟨hl, hh⟩

theorem Binary.IsDouble.high_lt (hx : x.IsDouble) : x.high < 2 ^ (53 + x.exponent) := by
  have hm : (x.mantissa : ℚ) + 1 ≤ 2 ^ (53 : ℤ) := by exact_mod_cast hx.lt
  rw [zpow_add₀ (by norm_num)]
  exact mul_lt_mul_of_pos_right (by linarith) (by positivity)

theorem Binary.nearest_self (x : Binary) : x.Nearest (x.mantissa * 2 ^ x.exponent) := by
  have hpos : (0 : ℚ) < 2 ^ x.exponent := by positivity
  refine Binary.nearest_of_between (mul_lt_mul_of_pos_right ?_ hpos)
    (mul_lt_mul_of_pos_right (by linarith) hpos)
  split <;> linarith

end

/-! ## Exponents -/

theorem targetExponent_binary64 (t : ℤ) :
    Format.binary64.targetExponent t = max (t - 53) (-1074) := by
  rfl

section
variable {m : ℕ} {e t : ℤ} {acc : Accuracy} {v : ℚ}

/-- What is left of a mantissa with its residual bits at a greater exponent. -/
theorem Stands.shiftToExponent (h : Stands (.ofMantissaAndAccuracy m acc) (v / 2 ^ e))
    (het : e ≤ t) :
    (UnpackedFloat.shiftToExponent m e acc t).2 = t ∧
      Stands (UnpackedFloat.shiftToExponent m e acc t).1 (v / 2 ^ t) := by
  have hshift : e + ((t - e).toNat : ℤ) = t := by omega
  refine ⟨hshift, ?_⟩
  have := h.shiftRight (t - e).toNat
  rw [div_div, ← zpow_natCast, ← zpow_add₀ (by norm_num), hshift] at this
  exact this

theorem mantissa_ofMantissaAndAccuracy (m : ℕ) (acc : Accuracy) :
    (ExtendedMantissa.ofMantissaAndAccuracy m acc).mantissa = m := by
  rcases acc with _ | _ | _ | _ <;> rfl

theorem totalExponent_le (h : Stands (.ofMantissaAndAccuracy m acc) (v / 2 ^ e))
    (hv : v < 2 ^ t) (he : e ≤ Format.binary64.targetExponent (totalExponent m e))
    (ht : -1073 ≤ t) : totalExponent m e ≤ t := by
  rw [targetExponent_binary64] at he
  unfold totalExponent at he ⊢
  rcases Nat.eq_zero_or_pos m with rfl | hm
  · simp at he ⊢
    omega
  · have hle := h.bounds.1
    rw [mantissa_ofMantissaAndAccuracy, le_div_iff₀ (by positivity)] at hle
    have hlog : (2 : ℚ) ^ (m.log2 : ℤ) ≤ m := by
      rw [zpow_natCast]
      exact_mod_cast Nat.log2_self_le hm.ne'
    have : (2 : ℚ) ^ ((m.log2 : ℤ) + e) < 2 ^ t := by
      rw [zpow_add₀ (by norm_num)]
      calc (2 : ℚ) ^ (m.log2 : ℤ) * 2 ^ e ≤ m * 2 ^ e := by gcongr
        _ ≤ v := hle
        _ < 2 ^ t := hv
    have := (zpow_lt_zpow_iff_right₀ (by norm_num : (1 : ℚ) < 2)).1 this
    omega

theorem lt_totalExponent (h : Stands (.ofMantissaAndAccuracy m acc) (v / 2 ^ e))
    (hv : 2 ^ t ≤ v) : t < totalExponent m e := by
  have hlt := h.bounds.2
  rw [mantissa_ofMantissaAndAccuracy, div_lt_iff₀ (by positivity)] at hlt
  have hlog : (m + 1 : ℚ) ≤ 2 ^ ((m.log2 : ℤ) + 1) := by
    have : m + 1 ≤ 2 ^ (m.log2 + 1) := Nat.lt_log2_self
    exact_mod_cast this
  have : (2 : ℚ) ^ t < 2 ^ ((m.log2 : ℤ) + 1 + e) := by
    rw [zpow_add₀ (by norm_num)]
    calc (2 : ℚ) ^ t ≤ v := hv
      _ < (m + 1) * 2 ^ e := hlt
      _ ≤ 2 ^ ((m.log2 : ℤ) + 1) * 2 ^ e := by gcongr
  have := (zpow_lt_zpow_iff_right₀ (by norm_num : (1 : ℚ) < 2)).1 this
  unfold totalExponent
  omega

end

/-! ## Rounding -/

theorem log2_of_normal {m : ℕ} (hn : 2 ^ 52 ≤ m) (hlt : m < 2 ^ 53) : m.log2 = 52 := by
  have hm : m ≠ 0 := by omega
  have hle : 52 ≤ m.log2 := (Nat.le_log2 hm).2 hn
  have hlt : m.log2 < 53 := (Nat.log2_lt hm).2 hlt
  omega

/-- The mantissa of a double need not be shifted. -/
theorem Binary.IsDouble.shiftToTargetExponent {x : Binary} (hx : x.IsDouble) :
    UnpackedFloat.shiftToTargetExponent Format.binary64 x.mantissa x.exponent .exact =
      (⟨x.mantissa, false, false⟩, x.exponent) := by
  have htarget :
      Format.binary64.targetExponent (totalExponent x.mantissa x.exponent) = x.exponent := by
    have := hx.least_le
    rw [targetExponent_binary64, totalExponent]
    rcases hx.normal with hn | he
    · rw [log2_of_normal hn hx.lt]
      omega
    · have hlog : x.mantissa.log2 < 53 := (Nat.log2_lt hx.pos.ne').2 hx.lt
      omega
  simp only [UnpackedFloat.shiftToTargetExponent, UnpackedFloat.shiftToExponent, htarget,
    Int.sub_self, Int.toNat_zero]
  simp [ExtendedMantissa.ofMantissaAndAccuracy, HShiftRight.hShiftRight, Nat.repeat]

/-- A mantissa that was rounded up to one bit too many. -/
theorem shiftToTargetExponent_overflow {e : ℤ} (he : -1074 ≤ e) :
    UnpackedFloat.shiftToTargetExponent Format.binary64 (2 ^ 53) e .exact =
      (⟨2 ^ 52, false, false⟩, e + 1) := by
  have htarget : Format.binary64.targetExponent (totalExponent (2 ^ 53) e) = e + 1 := by
    rw [targetExponent_binary64, totalExponent, Nat.log2_two_pow]
    omega
  simp only [UnpackedFloat.shiftToTargetExponent, UnpackedFloat.shiftToExponent, htarget,
    add_sub_cancel_left, Int.toNat_one]
  rfl

section
variable {x : Binary} {m : ℕ} {e : ℤ} {acc : Accuracy} {v : ℚ}

theorem roundWithAccuracy_of_shift {t : ℤ} {r : ℕ}
    (ht : Format.binary64.targetExponent (totalExponent m e) = t)
    (hexp : (UnpackedFloat.shiftToExponent m e acc t).2 = t)
    (hr : (UnpackedFloat.shiftToExponent m e acc t).1.roundedMantissa = r)
    (hf : UnpackedFloat.shiftToTargetExponent Format.binary64 r t .exact =
      (⟨x.mantissa, false, false⟩, x.exponent)) (hpos : 0 < x.mantissa) (s : Sign) :
    roundWithAccuracy Format.binary64 s m e acc = .finite s x.mantissa x.exponent hpos := by
  have hfirst : UnpackedFloat.shiftToTargetExponent Format.binary64 m e acc =
      UnpackedFloat.shiftToExponent m e acc t := by
    rw [UnpackedFloat.shiftToTargetExponent, ht]
  -- what is left to do with the number that the second shift gives
  let finish : ExtendedMantissa × ℤ → UnpackedFloat := fun shifted =>
    if h : shifted.1.mantissa = 0 then .zero s
    else .finite s shifted.1.mantissa shifted.2 (Nat.pos_of_ne_zero h)
  let first := UnpackedFloat.shiftToTargetExponent Format.binary64 m e acc
  calc roundWithAccuracy Format.binary64 s m e acc
    _ = finish (UnpackedFloat.shiftToTargetExponent Format.binary64 first.1.roundedMantissa
          first.2 .exact) := rfl
    _ = finish (⟨x.mantissa, false, false⟩, x.exponent) := by
      rw [show first = _ from hfirst, hexp, hr, hf]
    _ = .finite s x.mantissa x.exponent hpos := dif_neg hpos.ne'

/-- A number with the exponent of the double. -/
theorem roundWithAccuracy_of_le (hx : x.IsDouble) (hv : x.Nearest v)
    (hs : Stands (.ofMantissaAndAccuracy m acc) (v / 2 ^ e))
    (he : e ≤ Format.binary64.targetExponent (totalExponent m e))
    (hbinade : x.exponent = -1074 ∨ 2 ^ (52 + x.exponent) ≤ v) (s : Sign) :
    roundWithAccuracy Format.binary64 s m e acc = .finite s x.mantissa x.exponent hx.pos := by
  have htarget : Format.binary64.targetExponent (totalExponent m e) = x.exponent := by
    have hleast := hx.least_le
    have hle := totalExponent_le hs (hv.bounds.2.trans_lt hx.high_lt) he (by omega)
    rw [targetExponent_binary64]
    rcases hbinade with hmin | hge
    · omega
    · have := lt_totalExponent hs hge
      omega
  obtain ⟨hexp, hstands⟩ := hs.shiftToExponent (htarget ▸ he)
  have hrounded := hstands.roundedMantissa_eq hv.scaled.1 hv.scaled.2 hv.scaled_strict
  exact roundWithAccuracy_of_shift htarget hexp hrounded hx.shiftToTargetExponent hx.pos s

/-- A number just below a power of two that is rounded up to it. -/
theorem roundWithAccuracy_of_lt (hx : x.IsDouble) (hv : x.Nearest v)
    (hs : Stands (.ofMantissaAndAccuracy m acc) (v / 2 ^ e))
    (he : e ≤ Format.binary64.targetExponent (totalExponent m e)) (hexponent : x.exponent ≠ -1074)
    (hbelow : v < 2 ^ (52 + x.exponent)) (s : Sign) :
    roundWithAccuracy Format.binary64 s m e acc = .finite s x.mantissa x.exponent hx.pos := by
  have hleast := hx.least_le
  have hpow : (0 : ℚ) < 2 ^ x.exponent := by positivity
  rw [zpow_add₀ (by norm_num), ← div_lt_iff₀ hpow] at hbelow
  have hmantissa : x.mantissa = 2 ^ 52 := by
    have hnormal := hx.normal.resolve_right hexponent
    have hlt : (x.mantissa : ℚ) < 2 ^ (52 : ℤ) + 1 := by
      have := hv.scaled.1
      linarith
    have hlt : x.mantissa < 2 ^ 52 + 1 := by exact_mod_cast hlt
    omega
  have hlow : (2 ^ 52 - 1 / 4 : ℚ) ≤ v / 2 ^ x.exponent := by
    have hlow := hv.bounds.1
    rw [Binary.low, if_pos (hx.narrow.2 ⟨hmantissa, by omega⟩), hmantissa,
      ← le_div_iff₀ hpow] at hlow
    exact_mod_cast hlow
  have htarget : Format.binary64.targetExponent (totalExponent m e) = x.exponent - 1 := by
    have hle := totalExponent_le (t := 52 + x.exponent) hs ?_ he (by omega)
    have hlt := lt_totalExponent (t := 51 + x.exponent) hs ?_
    · rw [targetExponent_binary64]
      omega
    · rw [zpow_add₀ (by norm_num), ← le_div_iff₀ hpow]
      norm_num at hlow ⊢
      linarith
    · rwa [zpow_add₀ (by norm_num), ← div_lt_iff₀ hpow]
  obtain ⟨hexp, hstands⟩ := hs.shiftToExponent (htarget ▸ he)
  have hdouble : v / 2 ^ (x.exponent - 1) = 2 * (v / 2 ^ x.exponent) := by
    rw [zpow_sub_one₀ (by norm_num)]
    field_simp
  rw [hdouble] at hstands
  have hrounded := hstands.roundedMantissa_eq (k := 2 ^ 53)
    (by norm_num at hlow ⊢; linarith) (by norm_num at hbelow ⊢; linarith) (by norm_num)
  refine roundWithAccuracy_of_shift htarget hexp hrounded ?_ hx.pos s
  rw [shiftToTargetExponent_overflow (by omega), hmantissa, Int.sub_add_cancel]

/-- Whatever lies between the midpoints to the neighbouring doubles is rounded to the double. -/
theorem roundWithAccuracy_eq (hx : x.IsDouble) (hv : x.Nearest v)
    (hs : Stands (.ofMantissaAndAccuracy m acc) (v / 2 ^ e))
    (he : e ≤ Format.binary64.targetExponent (totalExponent m e)) (s : Sign) :
    roundWithAccuracy Format.binary64 s m e acc = .finite s x.mantissa x.exponent hx.pos := by
  by_cases hbinade : x.exponent = -1074 ∨ 2 ^ (52 + x.exponent) ≤ v
  · exact roundWithAccuracy_of_le hx hv hs he hbinade s
  · push Not at hbinade
    exact roundWithAccuracy_of_lt hx hv hs he hbinade.1 hbinade.2 s

end

/-! ## Products and quotients -/

section
variable {x : Binary} {m₁ m₂ : ℕ} {e₁ e₂ : ℤ} {h₁ : 0 < m₁} {h₂ : 0 < m₂} {s₁ s₂ : Sign}

theorem le_targetExponent {m : ℕ} (hm : 2 ^ 52 ≤ m) (e : ℤ) :
    e ≤ Format.binary64.targetExponent (totalExponent m e) := by
  have hlog : 52 ≤ m.log2 := (Nat.le_log2 (by omega)).2 hm
  rw [targetExponent_binary64, totalExponent]
  omega

/-- A product with bits enough is rounded to the double next to it. -/
theorem mul_eq (hx : x.IsDouble) (hm : 2 ^ 52 ≤ m₁ * m₂)
    (hv : x.Nearest (m₁ * 2 ^ e₁ * (m₂ * 2 ^ e₂))) :
    UnpackedFloat.mul Format.binary64 (.finite s₁ m₁ e₁ h₁) (.finite s₂ m₂ e₂ h₂) =
      .finite (s₁ * s₂) x.mantissa x.exponent hx.pos := by
  refine roundWithAccuracy_eq hx hv ?_ (le_targetExponent hm _) _
  have hvalue : (m₁ * 2 ^ e₁ * (m₂ * 2 ^ e₂) : ℚ) / 2 ^ (e₁ + e₂) = (m₁ * m₂ : ℕ) := by
    rw [zpow_add₀ (by norm_num)]
    push_cast
    field_simp
  rw [hvalue]
  exact stands_exact _

theorem stands_accuracyOfFraction (q : ℕ) {r d : ℕ} (hr : r < d) :
    Stands (.ofMantissaAndAccuracy q (accuracyOfFraction r d)) (q + r / d) := by
  have hd : (0 : ℚ) < d := by exact_mod_cast (Nat.zero_le r).trans_lt hr
  unfold accuracyOfFraction
  split
  · rename_i h0
    subst h0
    simpa using stands_exact q
  · rename_i h0
    have hpos : (0 : ℚ) < r / d := div_pos (by exact_mod_cast Nat.pos_of_ne_zero h0) hd
    have hlt : (r / d : ℚ) < 1 := (div_lt_one hd).2 (by exact_mod_cast hr)
    unfold Stands ExtendedMantissa.ofMantissaAndAccuracy
    rcases lt_trichotomy (2 * r) d with h | h | h
    · have hhalf : (r / d : ℚ) < 1 / 2 := by
        rw [div_lt_div_iff₀ hd (by norm_num)]
        exact_mod_cast (by omega : r * 2 < 1 * d)
      simpa [Nat.compare_eq_lt.2 h, Residue, hpos] using hhalf
    · have hhalf : (r / d : ℚ) = 1 / 2 := by
        rw [div_eq_div_iff hd.ne' (by norm_num)]
        exact_mod_cast (by omega : r * 2 = 1 * d)
      simpa [Nat.compare_eq_eq.2 h, Residue] using hhalf
    · have hhalf : (1 / 2 : ℚ) < r / d := by
        rw [div_lt_div_iff₀ (by norm_num) hd]
        exact_mod_cast (by omega : 1 * d < r * 2)
      simpa [Nat.compare_eq_gt.2 h, Residue, hlt] using hhalf

/-- The quotient that division rounds stands for the exact one. -/
theorem stands_divCore (m₁ : ℕ) (e₁ e₂ : ℤ) (h₂ : 0 < m₂) :
    Stands (.ofMantissaAndAccuracy (divCore Format.binary64 m₁ e₁ m₂ e₂).1
        (divCore Format.binary64 m₁ e₁ m₂ e₂).2.2)
      (m₁ * 2 ^ e₁ / (m₂ * 2 ^ e₂) / 2 ^ (divCore Format.binary64 m₁ e₁ m₂ e₂).2.1) := by
  dsimp only [divCore]
  generalize ht : min (e₁ - e₂) (Format.binary64.targetExponent
    (totalExponent m₁ e₁ - totalExponent m₂ e₂)) = t
  obtain ⟨n, hn⟩ : ∃ n : ℕ, e₁ - e₂ - t = n := Int.eq_ofNat_of_zero_le (by omega)
  have hm₂ : (m₂ : ℚ) ≠ 0 := by exact_mod_cast h₂.ne'
  have hdivision : ((m₁ * 2 ^ n : ℕ) : ℚ) = m₂ * (m₁ * 2 ^ n / m₂ : ℕ) + (m₁ * 2 ^ n % m₂ : ℕ) := by
    exact_mod_cast (Nat.div_add_mod (m₁ * 2 ^ n) m₂).symm
  have hvalue : (m₁ * 2 ^ e₁ / (m₂ * 2 ^ e₂) / 2 ^ t : ℚ) = (m₁ * 2 ^ n : ℕ) / m₂ := by
    have he₁ : e₁ = n + e₂ + t := by omega
    rw [he₁, zpow_add₀ (by norm_num), zpow_add₀ (by norm_num), zpow_natCast]
    push_cast
    field_simp
  rw [hvalue, hn, Int.toNat_natCast, Nat.shiftLeft_eq, hdivision, add_div,
    mul_div_cancel_left₀ _ hm₂]
  exact stands_accuracyOfFraction _ (Nat.mod_lt _ h₂)

/-- The quotient that division rounds has bits enough. -/
theorem divCore_le_targetExponent (h₁ : 0 < m₁) (h₂ : 0 < m₂) (e₁ e₂ : ℤ) :
    (divCore Format.binary64 m₁ e₁ m₂ e₂).2.1 ≤ Format.binary64.targetExponent
      (totalExponent (divCore Format.binary64 m₁ e₁ m₂ e₂).1
        (divCore Format.binary64 m₁ e₁ m₂ e₂).2.1) := by
  dsimp only [divCore]
  generalize ht : min (e₁ - e₂) (Format.binary64.targetExponent
    (totalExponent m₁ e₁ - totalExponent m₂ e₂)) = t
  by_cases hleast : t ≤ -1074
  · rw [targetExponent_binary64]
    omega
  · refine le_targetExponent ?_ t
    obtain ⟨n, hn⟩ : ∃ n : ℕ, e₁ - e₂ - t = n := Int.eq_ofNat_of_zero_le (by omega)
    rw [hn, Int.toNat_natCast, Nat.shiftLeft_eq, Nat.le_div_iff_mul_le h₂]
    rw [targetExponent_binary64, totalExponent, totalExponent] at ht
    have hbits : 53 + m₂.log2 ≤ m₁.log2 + n := by omega
    calc 2 ^ 52 * m₂ ≤ 2 ^ 52 * 2 ^ (m₂.log2 + 1) := by
          gcongr
          exact Nat.lt_log2_self.le
      _ = 2 ^ (53 + m₂.log2) := by ring
      _ ≤ 2 ^ (m₁.log2 + n) := Nat.pow_le_pow_right (by norm_num) hbits
      _ = 2 ^ m₁.log2 * 2 ^ n := pow_add _ _ _
      _ ≤ m₁ * 2 ^ n := by
          gcongr
          exact Nat.log2_self_le h₁.ne'

/-- A quotient is rounded to the double next to it. -/
theorem div_eq (hx : x.IsDouble) (hv : x.Nearest (m₁ * 2 ^ e₁ / (m₂ * 2 ^ e₂))) :
    UnpackedFloat.div Format.binary64 (.finite s₁ m₁ e₁ h₁) (.finite s₂ m₂ e₂ h₂) =
      .finite (s₁ / s₂) x.mantissa x.exponent hx.pos :=
  roundWithAccuracy_eq hx hv (stands_divCore m₁ e₁ e₂ h₂) (divCore_le_targetExponent h₁ h₂ e₁ e₂) _

end

end TypedSettings.Number
