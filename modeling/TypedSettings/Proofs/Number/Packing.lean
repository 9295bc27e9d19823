import TypedSettings.Proofs.Number.Rounding

/-!
# Doubles and their bits

Mantissa and exponent of a double are packed into its bits without a loss
(`Binary.IsDouble.unpack_pack`). Main statement: a finite double other than zero is the double of
the mantissa and the exponent that its bits hold, with its sign (`float_ofBits_magnitudeBits`).
-/

namespace TypedSettings.Number

open Float.Model UnpackedFloat

/-! ## Packing -/

theorem ofBitVec_toBitVec (s : Sign) : Sign.ofBitVec s.toBitVec = s := by
  cases s <;> rfl

theorem toNat_packComponents (s : Sign) (e : BitVec 11) (m : BitVec 52) :
    (packComponents Format.binary64 s e m).toNat =
      s.toBitVec.toNat * 2 ^ 63 + e.toNat * 2 ^ 52 + m.toNat := by
  rw [packComponents, BitVec.toNat_append, BitVec.toNat_append,
    ← Nat.shiftLeft_add_eq_or_of_lt e.isLt, ← Nat.shiftLeft_add_eq_or_of_lt m.isLt,
    Nat.shiftLeft_eq, Nat.shiftLeft_eq]
  ring

theorem unpackSign_packComponents (s : Sign) (e : BitVec 11) (m : BitVec 52) :
    unpackSign (packComponents Format.binary64 s e m) = s.toBitVec := by
  have he : e.toNat < 2 ^ 11 := e.isLt
  have hm : m.toNat < 2 ^ 52 := m.isLt
  have hs : s.toBitVec.toNat < 2 ^ 1 := s.toBitVec.isLt
  apply BitVec.eq_of_toNat_eq
  have hbits : (unpackSign (packComponents Format.binary64 s e m)).toNat =
      ((packComponents Format.binary64 s e m).extractLsb 63 63).toNat := BitVec.toNat_cast _ _
  rw [hbits, BitVec.extractLsb_toNat, toNat_packComponents, Nat.shiftRight_eq_div_pow]
  norm_num
  omega

/-- How a finite double is packed: as an infinity, with the leading bit of its mantissa left out,
or with the least exponent. -/
theorem pack_finite (s : Sign) (m : ℕ) (e : ℤ) (hm : 0 < m) :
    UnpackedFloat.pack Format.binary64 (.finite s m e hm) =
      if 2 ^ 11 ≤ (e + 1023 + 52).toNat + 1 then packedInfinity Format.binary64 s
      else if m.log2 + 1 = 53 then
        packComponents Format.binary64 s (BitVec.ofNat 11 (e + 1023 + 52).toNat) (BitVec.ofNat 52 m)
      else packComponents Format.binary64 s 0#11 (BitVec.ofNat 52 m) :=
  rfl

variable {x : Binary}

/-- The parts of a double that are packed into its bits. -/
theorem Binary.IsDouble.pack_eq (hx : x.IsDouble) (s : Sign) :
    UnpackedFloat.pack Format.binary64 (.finite s x.mantissa x.exponent hx.pos) =
      packComponents Format.binary64 s
        (BitVec.ofNat 11 (if 2 ^ 52 ≤ x.mantissa then (x.exponent + 1075).toNat else 0))
        (BitVec.ofNat 52 x.mantissa) := by
  have hleast := hx.least_le
  have hgreatest := hx.le_greatest
  have hbias : x.exponent + 1023 + 52 = x.exponent + 1075 := by ring
  rw [pack_finite, hbias, if_neg (by omega)]
  by_cases hn : 2 ^ 52 ≤ x.mantissa
  · rw [if_pos (by rw [log2_of_normal hn hx.lt]), if_pos hn]
  · have hlog : x.mantissa.log2 < 52 := (Nat.log2_lt hx.pos.ne').2 (by omega)
    rw [if_neg (by omega), if_neg hn]

/-- How bits are unpacked: the greatest exponent is that of the infinities, the least one has no
leading bit. -/
theorem unpack_of_parts {b : BitVec 64} {s : Sign} {e : BitVec 11} {m : BitVec 52}
    (hs : Sign.ofBitVec (@unpackSign Format.binary64 b) = s)
    (he : @unpackExponent Format.binary64 b = e) (hm : @unpackMantissa Format.binary64 b = m) :
    UnpackedFloat.unpack Format.binary64 b =
      if e = -1#11 then if m = 0#52 then .infinity s else .notANumber
      else if e = 0#11 then
        if h : m = 0#52 then .zero s
        else .finite s m.toNat ((e.toNat : ℤ) - 1075 + 1)
          (by simpa [BitVec.toNat_pos, BitVec.pos_iff_ne_zero])
      else .finite s (1#1 ++ m).toNat ((e.toNat : ℤ) - 1075)
        (BitVec.toNat_append 1#1 m ▸ Nat.lt_of_lt_of_le (by decide) Nat.left_le_or) := by
  subst hs he hm
  rfl

theorem Binary.IsDouble.unpack_pack (hx : x.IsDouble) (s : Sign) :
    UnpackedFloat.unpack Format.binary64
        (UnpackedFloat.pack Format.binary64 (.finite s x.mantissa x.exponent hx.pos)) =
      .finite s x.mantissa x.exponent hx.pos := by
  have hleast := hx.least_le
  have hgreatest := hx.le_greatest
  have hlt := hx.lt
  have hpos := hx.pos
  have hunpack := fun e m => @unpack_of_parts (packComponents Format.binary64 s e m) s e m
    (by rw [unpackSign_packComponents, ofBitVec_toBitVec]) unpackExponent_packComponents
    unpackMantissa_packComponents
  rw [hx.pack_eq]
  by_cases hn : 2 ^ 52 ≤ x.mantissa
  · have hexponent : (BitVec.ofNat 11 (x.exponent + 1075).toNat).toNat =
        (x.exponent + 1075).toNat := by
      rw [BitVec.toNat_ofNat, Nat.mod_eq_of_lt (by omega)]
    rw [if_pos hn, hunpack]
    rw [if_neg, if_neg]
    · -- the leading bit that was left out comes back
      congr 1
      · rw [BitVec.toNat_append, ← Nat.shiftLeft_add_eq_or_of_lt (BitVec.isLt _),
          BitVec.toNat_ofNat]
        norm_num [Nat.shiftLeft_eq]
        omega
      · rw [hexponent]
        omega
    · intro h
      have := congrArg BitVec.toNat h
      rw [hexponent] at this
      simp at this
      omega
    · intro h
      have := congrArg BitVec.toNat h
      rw [hexponent] at this
      simp at this
      omega
  · -- below the normal doubles only the least exponent is left
    have hexponent : x.exponent = -1074 := hx.normal.resolve_left hn
    have hmantissa : (BitVec.ofNat 52 x.mantissa).toNat = x.mantissa := by
      rw [BitVec.toNat_ofNat, Nat.mod_eq_of_lt (by omega)]
    rw [if_neg hn, hunpack]
    rw [if_neg (by decide), if_pos rfl, dif_neg]
    · congr 1
      rw [hexponent]
      simp
    · intro h
      have := congrArg BitVec.toNat h
      rw [hmantissa] at this
      simp at this
      omega

/-! ## Doubles -/

/-- The double of the mantissa and the exponent, with a sign. -/
def Binary.float (x : Binary) (s : Sign) (hx : 0 < x.mantissa) : Float :=
  .ofModel (.pack (.finite s x.mantissa x.exponent hx))

theorem Binary.IsDouble.unpack_float (hx : x.IsDouble) (s : Sign) :
    (x.float s hx.pos).toModel.unpack = .finite s x.mantissa x.exponent hx.pos :=
  hx.unpack_pack s

theorem Binary.IsDouble.neg_float (hx : x.IsDouble) :
    -x.float .positive hx.pos = x.float .negative hx.pos := by
  change Float.ofModel (.pack (x.float .positive hx.pos).toModel.unpack.neg) = _
  rw [hx.unpack_float]
  rfl

theorem Binary.IsDouble.toNat_toBits_float (hx : x.IsDouble) (s : Sign) :
    (x.float s hx.pos).toBits.toNat = s.toBitVec.toNat * 2 ^ 63 +
      ((if 2 ^ 52 ≤ x.mantissa then (x.exponent + 1075).toNat else 0) * 2 ^ 52 +
        x.mantissa % 2 ^ 52) := by
  have hgreatest := hx.le_greatest
  change (UnpackedFloat.pack Format.binary64 (.finite s x.mantissa x.exponent hx.pos)).toNat = _
  rw [hx.pack_eq, toNat_packComponents, BitVec.toNat_ofNat, BitVec.toNat_ofNat,
    Nat.mod_eq_of_lt (b := 2 ^ 11), Nat.add_assoc]
  split <;> omega

theorem float_eq_of_toBits {x y : Float} (h : x.toBits.toNat = y.toBits.toNat) : x = y := by
  obtain ⟨⟨b, hb⟩⟩ := x
  obtain ⟨⟨c, hc⟩⟩ := y
  obtain rfl : b = c := UInt64.toNat_inj.1 h
  rfl

/-! ## Doubles from their bits -/

theorem signBit_iff {x : Float} : signBit x = true ↔ x.toBits.toNat / 2 ^ 63 = 1 := by
  have hshift : (x.toBits >>> 63).toNat = x.toBits.toNat / 2 ^ 63 := by
    rw [UInt64.toNat_shiftRight, Nat.shiftRight_eq_div_pow]
    rfl
  rw [signBit, beq_iff_eq, ← UInt64.toNat_inj, hshift]
  rfl

/-- A double without a magnitude is zero, with its sign. -/
theorem eq_zero_of_magnitudeBits {x : Float} (h0 : magnitudeBits x = 0) :
    (if signBit x then -0 else 0) = x := by
  have hbits : x.toBits.toNat < 2 ^ 64 := x.toBits.toNat_lt
  have hmagnitude : x.toBits.toNat % 2 ^ 63 = 0 := by
    have := toNat_magnitudeBits x
    rw [h0] at this
    exact this.symm
  apply float_eq_of_toBits
  split
  · rename_i hsign
    rw [signBit_iff] at hsign
    have hzero : (-0 : Float).toBits.toNat = 2 ^ 63 := by decide +kernel
    omega
  · rename_i hsign
    rw [signBit_iff] at hsign
    have hzero : (0 : Float).toBits.toNat = 0 := by decide +kernel
    omega

/-- The sign apart, a double is given by the bits of its mantissa and its exponent. -/
theorem Binary.IsDouble.float_eq (hx : x.IsDouble) {y : Float}
    (h : (if 2 ^ 52 ≤ x.mantissa then (x.exponent + 1075).toNat else 0) * 2 ^ 52 +
      x.mantissa % 2 ^ 52 = y.toBits.toNat % 2 ^ 63) :
    (if signBit y then -x.float .positive hx.pos else x.float .positive hx.pos) = y := by
  have hbits : y.toBits.toNat < 2 ^ 64 := y.toBits.toNat_lt
  apply float_eq_of_toBits
  split
  · rename_i hsign
    have hone : Sign.negative.toBitVec.toNat = 1 := rfl
    rw [signBit_iff] at hsign
    rw [hx.neg_float, hx.toNat_toBits_float, h, hone]
    clear h
    omega
  · rename_i hsign
    have hzero : Sign.positive.toBitVec.toNat = 0 := rfl
    rw [signBit_iff] at hsign
    rw [hx.toNat_toBits_float, h, hzero]
    clear h
    omega

/-- The mantissa and the exponent in the bits of a finite double. -/
theorem Binary.ofBits_eq {b : UInt64} (hb : b < 0x7FF0000000000000) :
    Binary.ofBits b =
      if b.toNat / 2 ^ 52 = 0 then ⟨b.toNat % 2 ^ 52, -1074, false⟩
      else ⟨2 ^ 52 + b.toNat % 2 ^ 52, (b.toNat / 2 ^ 52 : ℕ) - 1075,
        b.toNat % 2 ^ 52 == 0 && decide (1 < b.toNat / 2 ^ 52)⟩ := by
  have hlt : b.toNat < 0x7FF0000000000000 := UInt64.lt_iff_toNat_lt.1 hb
  have hexponent : ((b >>> 52) &&& 0x7FF).toNat = b.toNat / 2 ^ 52 := by
    rw [UInt64.toNat_and, UInt64.toNat_shiftRight]
    refine (Nat.and_two_pow_sub_one_eq_mod _ 11).trans ?_
    rw [Nat.shiftRight_eq_div_pow, show UInt64.toNat 52 % 64 = 52 from rfl]
    exact Nat.mod_eq_of_lt (by omega)
  have hmantissa : (b &&& 0xFFFFFFFFFFFFF).toNat = b.toNat % 2 ^ 52 := by
    rw [UInt64.toNat_and]
    exact Nat.and_two_pow_sub_one_eq_mod _ 52
  simp only [Binary.ofBits, hexponent, hmantissa]
  rfl

theorem Binary.isDouble_ofBits {b : UInt64} (h0 : b ≠ 0) (hb : b < 0x7FF0000000000000) :
    (Binary.ofBits b).IsDouble := by
  have hlt : b.toNat < 0x7FF0000000000000 := UInt64.lt_iff_toNat_lt.1 hb
  have hpos : b.toNat ≠ 0 := fun h => h0 (UInt64.toNat_inj.1 h)
  rw [Binary.ofBits_eq hb]
  split
  · refine ⟨?_, ?_, .inr rfl, le_rfl, by norm_num, by simp⟩ <;> dsimp only <;> omega
  · constructor <;> dsimp only
    case narrow =>
      rw [Bool.and_eq_true, beq_iff_eq, decide_eq_true_eq]
      omega
    all_goals omega

/-- A finite double other than zero is what its bits say. -/
theorem float_ofBits_magnitudeBits {x : Float} (h0 : magnitudeBits x ≠ 0)
    (hx : isFinite x = true) :
    let y := (Binary.ofBits (magnitudeBits x)).float .positive
      (Binary.isDouble_ofBits h0 (of_decide_eq_true hx)).pos
    (if signBit x then -y else y) = x := by
  have hb : magnitudeBits x < 0x7FF0000000000000 := of_decide_eq_true hx
  refine (Binary.isDouble_ofBits h0 hb).float_eq ?_
  have hmagnitude : x.toBits.toNat % 2 ^ 63 = (magnitudeBits x).toNat :=
    (toNat_magnitudeBits x).symm
  rw [hmagnitude, Binary.ofBits_eq hb]
  have : (magnitudeBits x).toNat ≠ 0 := fun h => h0 (UInt64.toNat_inj.1 h)
  split <;> dsimp only
  · rw [if_neg (by omega)]
    omega
  · rw [if_pos (by omega)]
    omega

end TypedSettings.Number
