import TypedSettings.Number.FloatText

/-!
# What reading digits never gives

Digits are read as a number or as an infinity, never as no number (`isNumber_nearestFloat`), and
the sign does not change that (`IsNumber.neg`). The bits of a double and the unpacked number behind
the arithmetic agree on it (`isNotANumber_eq_false`).
-/

namespace TypedSettings.Number

open Float.Model

/-! ## Bits -/

def IsInfinite (x : Float) : Prop := magnitudeBits x = 0x7FF0000000000000

def IsNumber (x : Float) : Prop := x.toModel.unpack ≠ .notANumber

theorem unpack_eq_notANumber_iff {b : BitVec Format.binary64.numBits} :
    UnpackedFloat.unpack Format.binary64 b = .notANumber ↔
      UnpackedFloat.unpackExponent b = -1#_ ∧ UnpackedFloat.unpackMantissa b ≠ 0#_ := by
  unfold UnpackedFloat.unpack
  dsimp only
  by_cases he : UnpackedFloat.unpackExponent b = -1#_
  · rw [if_pos he]
    by_cases hm : UnpackedFloat.unpackMantissa b = 0#_
    · rw [if_pos hm]
      refine ⟨fun h => ?_, fun h => absurd hm h.2⟩
      cases h
    · rw [if_neg hm]
      exact ⟨fun _ => ⟨he, hm⟩, fun _ => rfl⟩
  · rw [if_neg he]
    refine ⟨fun h => ?_, fun h => absurd h.1 he⟩
    by_cases hzero : UnpackedFloat.unpackExponent b = 0#_
    · rw [if_pos hzero] at h
      by_cases hm : UnpackedFloat.unpackMantissa b = 0#_
      · rw [dif_pos hm] at h
        cases h
      · rw [dif_neg hm] at h
        cases h
    · rw [if_neg hzero] at h
      cases h

theorem unpack_pack_ne {f : UnpackedFloat} (h : f ≠ .notANumber) :
    UnpackedFloat.unpack Format.binary64 (UnpackedFloat.pack Format.binary64 f) ≠ .notANumber := by
  rw [Ne, unpack_eq_notANumber_iff]
  rintro ⟨he, hm⟩
  unfold UnpackedFloat.pack at he hm
  cases f with
  | notANumber => exact h rfl
  | infinity s => simp [UnpackedFloat.packedInfinity] at hm
  | zero s => simp [UnpackedFloat.packedZero] at hm
  | finite s m e _ =>
    dsimp only at he hm
    split at he
    · rename_i hlarge
      rw [if_pos hlarge] at hm
      simp [UnpackedFloat.packedInfinity] at hm
    · rename_i hlt
      split at he
      · rw [UnpackedFloat.unpackExponent_packComponents, ← BitVec.toNat_inj] at he
        simp at he hlt
        omega
      · simp at he

theorem toNat_magnitudeBits (x : Float) :
    (magnitudeBits x).toNat = x.toBits.toNat % 0x8000000000000000 := by
  rw [magnitudeBits, UInt64.toNat_and]
  exact Nat.and_two_pow_sub_one_eq_mod _ 63

theorem isNotANumber_eq_false {x : Float} (h : IsNumber x) : isNotANumber x = false := by
  have hx : ¬ ((x.toBits.toNat / 2 ^ 52) % 2 ^ 11 = 2 ^ 11 - 1 ∧ x.toBits.toNat % 2 ^ 52 ≠ 0) := by
    rintro ⟨he, hm⟩
    unfold Float.toBits at he hm
    refine h (unpack_eq_notANumber_iff.2 ⟨?_, ?_⟩)
    · rw [← BitVec.toNat_inj]
      simpa [UnpackedFloat.unpackExponent, Nat.shiftRight_eq_div_pow] using he
    · rw [Ne, ← BitVec.toNat_inj]
      simpa [UnpackedFloat.unpackMantissa] using hm
  rw [isNotANumber, decide_eq_false_iff_not, GT.gt, UInt64.lt_iff_toNat_lt, toNat_magnitudeBits]
  have : (0x7FF0000000000000 : UInt64).toNat = 0x7FF0000000000000 := rfl
  omega

theorem IsNumber.isFinite {x : Float} (h : IsNumber x) (hi : ¬ IsInfinite x) :
    isFinite x = true := by
  have hn := isNotANumber_eq_false h
  rw [isNotANumber, decide_eq_false_iff_not, GT.gt, UInt64.lt_iff_toNat_lt] at hn
  rw [IsInfinite, ← UInt64.toNat_inj] at hi
  rw [Number.isFinite, decide_eq_true_eq, UInt64.lt_iff_toNat_lt]
  omega

/-! ## Arithmetic -/

theorem isNumber_ofModel_pack {f : UnpackedFloat} (h : f ≠ .notANumber) :
    IsNumber (Float.ofModel (Float.Model.pack f)) :=
  unpack_pack_ne h

theorem roundWithAccuracy_ne (format : Format) (s : UnpackedFloat.Sign) (m : Nat) (e : Int)
    (a : UnpackedFloat.Accuracy) :
    UnpackedFloat.roundWithAccuracy format s m e a ≠ .notANumber := by
  unfold UnpackedFloat.roundWithAccuracy
  dsimp only
  generalize UnpackedFloat.shiftToTargetExponent format _ _ .exact = final
  by_cases hm : final.1.mantissa = 0
  · rw [dif_pos hm]
    exact UnpackedFloat.noConfusion
  · rw [dif_neg hm]
    exact UnpackedFloat.noConfusion

theorem IsNumber.neg {x : Float} (h : IsNumber x) : IsNumber (-x) := by
  refine isNumber_ofModel_pack ?_
  cases hx : x.toModel.unpack with
  | notANumber => exact absurd hx h
  | infinity s | zero s | finite s m e _ => exact nofun

def IsFiniteNonzero (f : UnpackedFloat) : Prop := ∃ s m e h, f = .finite s m e h

theorem IsNumber.mul {x y : Float} (hx : IsNumber x) (hy : IsFiniteNonzero y.toModel.unpack) :
    IsNumber (x * y) := by
  refine isNumber_ofModel_pack ?_
  obtain ⟨s, m, e, h, hy⟩ := hy
  rw [hy]
  cases hx' : x.toModel.unpack with
  | notANumber => exact absurd hx' hx
  | infinity s | zero s => exact nofun
  | finite s m e _ => exact roundWithAccuracy_ne _ _ _ _ _

theorem IsNumber.div {x y : Float} (hx : IsNumber x) (hy : IsFiniteNonzero y.toModel.unpack) :
    IsNumber (x / y) := by
  refine isNumber_ofModel_pack ?_
  obtain ⟨s, m, e, h, hy⟩ := hy
  rw [hy]
  cases hx' : x.toModel.unpack with
  | notANumber => exact absurd hx' hx
  | infinity s | zero s => exact nofun
  | finite s m e _ => exact roundWithAccuracy_ne _ _ _ _ _

theorem isNumber_toFloat (n : UInt64) : IsNumber n.toFloat := by
  refine isNumber_ofModel_pack ?_
  simp only [UnpackedFloat.ofUInt64, UnpackedFloat.ofNat, UnpackedFloat.ofInt,
    UnpackedFloat.normalize]
  split
  · exact roundWithAccuracy_ne _ _ _ _ _
  · simp
  · exact roundWithAccuracy_ne _ _ _ _ _

theorem isFiniteNonzero_powerOfTen {e : Nat} (h : e < Float.exactlyRepresentablePowersOfTen.size) :
    IsFiniteNonzero Float.exactlyRepresentablePowersOfTen[e].toModel.unpack := by
  have all : ∀ x ∈ Float.exactlyRepresentablePowersOfTen.toList, (match x.toModel.unpack with
      | .finite .. => true
      | _ => false) = true := by
    decide +kernel
  have := all _ (Array.getElem_mem_toList h)
  split at this
  · rename_i hx
    exact ⟨_, _, _, _, hx⟩
  · cases this

theorem unpacked_ofScientific_ne (m : Nat) (e : Int) :
    UnpackedFloat.ofScientific Format.binary64 m e ≠ .notANumber := by
  unfold UnpackedFloat.ofScientific
  by_cases hm : m = 0
  · rw [dif_pos hm]
    exact UnpackedFloat.noConfusion
  rw [dif_neg hm]
  by_cases hlarge : e > 2 ^ Format.binary64.exponentBits
  · rw [if_pos hlarge]
    exact UnpackedFloat.noConfusion
  rw [if_neg hlarge]
  by_cases hsmall : e < -((2 ^ Format.binary64.exponentBits : Int) + m.log2)
  · rw [if_pos hsmall]
    exact UnpackedFloat.noConfusion
  rw [if_neg hsmall]
  by_cases he : 0 ≤ e
  · rw [if_pos he]
    exact roundWithAccuracy_ne _ _ _ _ _
  · rw [if_neg he]
    exact roundWithAccuracy_ne _ _ _ _ _

theorem isNumber_ofScientific (m : Nat) (s : Bool) (e : Nat) :
    IsNumber (Float.ofScientific m s e) := by
  unfold Float.ofScientific
  split
  · split
    · exact (isNumber_toFloat _).div (isFiniteNonzero_powerOfTen _)
    · exact (isNumber_toFloat _).mul (isFiniteNonzero_powerOfTen _)
  · exact isNumber_ofModel_pack (unpacked_ofScientific_ne _ _)

theorem isNumber_infinity : IsNumber infinity := by
  refine isNumber_ofModel_pack ?_
  rw [Ne, unpack_eq_notANumber_iff]
  decide

/-! ## Reading -/

/-- The double nearest to a decimal is a number or an infinity. -/
theorem isNumber_nearestFloat (whole fraction : List Char) (exponent : Int) :
    IsNumber (nearestFloat whole fraction exponent) := by
  have hzero : IsNumber 0 := isNumber_ofScientific 0 false 0
  simp only [nearestFloat]
  split
  · exact hzero
  · split
    · exact isNumber_infinity
    · split
      · exact hzero
      · exact isNumber_ofScientific _ _ _

end TypedSettings.Number
