import TypedSettings.Proofs.Number.Packing
import TypedSettings.Proofs.Text.Digits

/-!
# Decimals and the doubles next to them

The fewest digits of a double lie between the midpoints to its neighbours
(`Binary.nearest_shortest`), and the digits of any number between them are read as the double,
whether the arithmetic is that of doubles or exact (`ofScientific_eq`). Main statement: no number in
the range of doubles is taken to be out of it (`nearestFloat_eq`).
-/

namespace TypedSettings.Number

open Text Float.Model UnpackedFloat

/-! ## Exact values -/

def Scientific.value (d : Scientific) : ℚ := d.digits * 10 ^ d.exponent

def Binary.value (x : Binary) : ℚ := x.mantissa * 2 ^ x.exponent

theorem cast_pow_toNat (c : ℕ) (hc : c ≠ 0) (e : ℤ) :
    ((Nat.pow c e.toNat : ℕ) : ℚ) = (c : ℚ) ^ e * (c : ℚ) ^ (-e).toNat := by
  have hc' : (c : ℚ) ≠ 0 := by exact_mod_cast hc
  rw [Nat.pow_eq, Nat.cast_pow, ← zpow_natCast, ← zpow_natCast, ← zpow_add₀ hc']
  congr 1
  omega

/-- The comparison in natural numbers is that of the fractions. -/
theorem compareScaled_eq (a : ℕ) (e : ℤ) (b : ℕ) (p : ℤ) :
    compareScaled a e b p = compare (a * 10 ^ e : ℚ) (b * 2 ^ p) := by
  have hscale : (0 : ℚ) < 10 ^ (-e).toNat * 2 ^ (-p).toNat := by positivity
  have hleft : ((a * Nat.pow 10 e.toNat * Nat.pow 2 (-p).toNat : ℕ) : ℚ) =
      a * 10 ^ e * (10 ^ (-e).toNat * 2 ^ (-p).toNat) := by
    rw [Nat.cast_mul, Nat.cast_mul, cast_pow_toNat 10 (by norm_num), Nat.pow_eq]
    push_cast
    ring
  have hright : ((b * Nat.pow 2 p.toNat * Nat.pow 10 (-e).toNat : ℕ) : ℚ) =
      b * 2 ^ p * (10 ^ (-e).toNat * 2 ^ (-p).toNat) := by
    rw [Nat.cast_mul, Nat.cast_mul, cast_pow_toNat 2 (by norm_num), Nat.pow_eq]
    push_cast
    ring
  unfold compareScaled
  rcases lt_trichotomy (a * 10 ^ e : ℚ) (b * 2 ^ p) with h | h | h
  · rw [compare_lt_iff_lt.2 h, compare_lt_iff_lt, ← Nat.cast_lt (α := ℚ), hleft, hright]
    exact mul_lt_mul_of_pos_right h hscale
  · rw [compare_eq_iff_eq.2 h, compare_eq_iff_eq, ← Nat.cast_inj (R := ℚ), hleft, hright, h]
  · rw [compare_gt_iff_gt.2 h, compare_gt_iff_gt, ← Nat.cast_lt (α := ℚ), hleft, hright]
    exact mul_lt_mul_of_pos_right h hscale

/-- What reads back are the numbers between the midpoints. -/
theorem Binary.readsBack_iff {x : Binary} (hx : 0 < x.mantissa) {d : Scientific} :
    x.readsBack d = true ↔ x.Nearest d.value := by
  have hquarter : (2 : ℚ) ^ (x.exponent - 2) = 2 ^ x.exponent / 4 := by
    rw [zpow_sub₀ (by norm_num)]
    norm_num
  have hlow : (((4 * x.mantissa - if x.narrowBelow then 1 else 2 : ℕ) : ℚ) *
      2 ^ (x.exponent - 2)) = x.low := by
    rw [Binary.low, hquarter]
    split
    · rw [Nat.cast_sub (by omega)]
      push_cast
      ring
    · rw [Nat.cast_sub (by omega)]
      push_cast
      ring
  have hhigh : ((4 * x.mantissa + 2 : ℕ) : ℚ) * 2 ^ (x.exponent - 2) = x.high := by
    rw [Binary.high, hquarter]
    push_cast
    ring
  simp only [Binary.readsBack, compareScaled_eq, hlow, hhigh]
  rw [Binary.Nearest]
  split
  · simp [Scientific.value, compare_lt_iff_lt, compare_gt_iff_gt]
  · simp [Scientific.value, compare_lt_iff_lt, compare_gt_iff_gt]

/-! ## The fewest digits -/

theorem Binary.value_exact (x : Binary) : x.exact.value = x.value := by
  simp only [Scientific.value, Binary.exact, Binary.value, Nat.pow_eq]
  rcases le_or_gt 0 x.exponent with he | he
  · obtain ⟨n, hn⟩ := Int.eq_ofNat_of_zero_le he
    simp [hn]
  · obtain ⟨n, hn⟩ := Int.eq_ofNat_of_zero_le (show 0 ≤ -x.exponent by omega)
    have hexponent : x.exponent = -n := by omega
    have hten : (10 : ℚ) ^ n = 2 ^ n * 5 ^ n := by
      rw [← mul_pow]
      norm_num
    rw [hexponent]
    simp only [neg_neg, Int.toNat_natCast, Int.toNat_neg_natCast, pow_zero, mul_one]
    rw [min_eq_left (by omega), zpow_neg, zpow_neg, zpow_natCast, zpow_natCast, hten]
    push_cast
    field_simp

/-- The shortest digits lie between the midpoints. -/
theorem Binary.nearest_shortest {x : Binary} (hx : 0 < x.mantissa) (tie : Tie) :
    x.Nearest (x.shortest tie).value := by
  unfold Binary.shortest
  cases h : x.search tie with
  | some d => exact (Binary.readsBack_iff hx).1 (search_readsBack h)
  | none =>
    rw [Option.getD_none, x.value_exact]
    exact x.nearest_self

/-! ## Doubles of decimals -/

section
variable {x : Binary} {n : ℕ} {e : ℤ}

theorem unpacked_ofScientific_eq (hx : x.IsDouble) (hv : x.Nearest (n * 10 ^ e)) (hn : 0 < n)
    (hlarge : e ≤ 2 ^ 11) (hsmall : -(2 ^ 11 + n.log2) ≤ e) :
    UnpackedFloat.ofScientific Format.binary64 n e =
      .finite .positive x.mantissa x.exponent hx.pos := by
  rw [UnpackedFloat.ofScientific, dif_neg hn.ne', if_neg (by simpa using hlarge),
    if_neg (by simpa using hsmall)]
  by_cases he : 0 ≤ e
  · rw [if_pos he]
    have hmantissa : n <<< Format.binary64.mantissaBits = n * 2 ^ 53 := Nat.shiftLeft_eq _ _
    have hpositive : 0 < 10 ^ e.toNat := by positivity
    refine mul_eq hx ?_ ?_
    · rw [hmantissa]
      nlinarith
    · have hbits : (Format.binary64.mantissaBits : ℤ) = 53 := rfl
      have hten : ((10 ^ e.toNat : ℕ) : ℚ) = 10 ^ e := by
        rw [Nat.cast_pow, ← zpow_natCast, Int.toNat_of_nonneg he]
        rfl
      rw [hmantissa, hbits, hten, zpow_zero, mul_one, Nat.cast_mul, mul_assoc (n : ℚ)]
      norm_num at hv ⊢
      exact hv
  · rw [if_neg he]
    refine div_eq hx ?_
    have hten : ((10 ^ (-e).toNat : ℕ) : ℚ) = 10 ^ (-e) := by
      rw [Nat.cast_pow, ← zpow_natCast, Int.toNat_of_nonneg (by omega)]
      rfl
    rw [hten, zpow_zero, mul_one, mul_one, zpow_neg, div_inv_eq_mul]
    exact hv

/-- A number of 53 bits is rounded to a double of the same value. -/
theorem exists_round (hn : 0 < n) (hlt : n < 2 ^ 53) :
    ∃ y : Binary, ∃ hy : y.IsDouble, 2 ^ 52 ≤ y.mantissa ∧ y.value = n ∧
      UnpackedFloat.round Format.binary64 .positive n 0 =
        .finite .positive y.mantissa y.exponent hy.pos := by
  have hlog : n.log2 < 53 := (Nat.log2_lt hn.ne').2 hlt
  obtain ⟨k, hk⟩ : ∃ k, n.log2 + k = 52 := ⟨52 - n.log2, by omega⟩
  have hnormal : 2 ^ 52 ≤ n * 2 ^ k := by
    rw [← hk, pow_add]
    exact Nat.mul_le_mul_right _ (Nat.log2_self_le hn.ne')
  have hfits : n * 2 ^ k < 2 ^ 53 := by
    rw [show 53 = n.log2 + 1 + k by omega, pow_add]
    exact Nat.mul_lt_mul_of_pos_right Nat.lt_log2_self (by positivity)
  let y : Binary := ⟨n * 2 ^ k, -k, n * 2 ^ k == 2 ^ 52⟩
  have hy : y.IsDouble :=
    ⟨by positivity, hfits, .inl hnormal, by simp [y]; omega, by simp [y], by simp [y]; omega⟩
  refine ⟨y, hy, hnormal, by simp [y, Binary.value], ?_⟩
  have htarget : Format.binary64.targetExponent (totalExponent n 0) = -k := by
    rw [targetExponent_binary64, totalExponent]
    omega
  have hdecreased : decreaseExponent n 0 (-k) = (n * 2 ^ k, -(k : ℤ)) := by
    simp [decreaseExponent, Nat.shiftLeft_eq]
  have hstands : Stands (.ofMantissaAndAccuracy (n * 2 ^ k) .exact)
      (y.mantissa * 2 ^ y.exponent / 2 ^ (-(k : ℤ))) := by
    rw [mul_div_cancel_right₀ (y.mantissa : ℚ) (zpow_ne_zero _ (by norm_num))]
    exact stands_exact _
  have hround : UnpackedFloat.round Format.binary64 .positive n 0 =
      let shifted := decreaseExponent n 0 (Format.binary64.targetExponent (totalExponent n 0))
      roundWithAccuracy Format.binary64 .positive shifted.1 shifted.2 .exact := rfl
  rw [hround, htarget, hdecreased]
  exact roundWithAccuracy_eq hy y.nearest_self hstands (le_targetExponent hnormal _) _

/-- Numbers of 53 bits are doubles. -/
theorem exists_toFloat (hn : 0 < n) (hlt : n < 2 ^ 53) :
    ∃ m p h, n.toUInt64.toFloat.toModel.unpack = .finite .positive m p h ∧ 2 ^ 52 ≤ m ∧
      (m * 2 ^ p : ℚ) = n := by
  obtain ⟨y, hy, hnormal, hvalue, hround⟩ := exists_round hn hlt
  refine ⟨y.mantissa, y.exponent, hy.pos, ?_, hnormal, hvalue⟩
  have hn64 : n.toUInt64.toNat = n := UInt64.toNat_ofNat_of_lt' (hlt.trans (by decide))
  have hcompare : compare (n : ℤ) 0 = .gt := by
    rw [compare_gt_iff_gt]
    omega
  have hunpacked : UnpackedFloat.ofUInt64 Format.binary64 n.toUInt64 =
      .finite .positive y.mantissa y.exponent hy.pos := by
    change UnpackedFloat.normalize _ (n.toUInt64.toNat : ℤ) 0 .positive = _
    rw [hn64, UnpackedFloat.normalize, hcompare]
    exact hround
  change UnpackedFloat.unpack _ (UnpackedFloat.pack _ (UnpackedFloat.ofUInt64 _ _)) = _
  rw [hunpacked, hy.unpack_pack]

/-- The table of powers of ten holds them without a loss. -/
theorem powersOfTen_exact (k : Fin Float.exactlyRepresentablePowersOfTen.size) :
    (match Float.exactlyRepresentablePowersOfTen[k].toModel.unpack with
      | .finite .positive m p _ =>
        decide (2 ^ 52 ≤ m ∧ m * 2 ^ p.toNat = 10 ^ k.val * 2 ^ (-p).toNat)
      | _ => false) = true := by
  revert k
  decide +kernel

theorem exists_powerOfTen {k : ℕ} (hk : k < Float.exactlyRepresentablePowersOfTen.size) :
    ∃ m p h, Float.exactlyRepresentablePowersOfTen[k].toModel.unpack = .finite .positive m p h ∧
      2 ^ 52 ≤ m ∧ (m * 2 ^ p : ℚ) = 10 ^ k := by
  have hexact := powersOfTen_exact ⟨k, hk⟩
  generalize Float.exactlyRepresentablePowersOfTen[k].toModel.unpack = power at hexact ⊢
  rcases power with _ | _ | _ | ⟨_ | _, m, p, h⟩
  case finite.positive =>
    obtain ⟨hm, hvalue⟩ := of_decide_eq_true hexact
    refine ⟨m, p, h, rfl, hm, ?_⟩
    have hvalue : ((m * Nat.pow 2 p.toNat : ℕ) : ℚ) = (10 ^ k * Nat.pow 2 (-p).toNat : ℕ) := by
      exact_mod_cast hvalue
    rw [Nat.cast_mul, cast_pow_toNat 2 (by norm_num), Nat.cast_mul, Nat.pow_eq] at hvalue
    push_cast at hvalue
    rw [← mul_assoc] at hvalue
    exact mul_right_cancel₀ (by positivity) hvalue
  all_goals cases hexact

/-! ## The range of doubles -/

theorem Binary.IsDouble.le_low (hx : x.IsDouble) : 2 ^ (-1075 : ℤ) ≤ x.low := by
  have hm : (1 : ℚ) ≤ x.mantissa := by exact_mod_cast hx.pos
  have hmantissa : (2 : ℚ) ^ (-1 : ℤ) ≤ x.mantissa - if x.narrowBelow then 1 / 4 else 1 / 2 := by
    split <;> norm_num <;> linarith
  calc (2 : ℚ) ^ (-1075 : ℤ) = 2 ^ (-1 : ℤ) * 2 ^ (-1074 : ℤ) := zpow_add₀ two_ne_zero (-1) (-1074)
    _ ≤ x.low := mul_le_mul hmantissa (zpow_le_zpow_right₀ (by norm_num) hx.least_le)
        (by positivity) ((by positivity : (0 : ℚ) ≤ 2 ^ (-1 : ℤ)).trans hmantissa)

theorem Binary.IsDouble.high_le (hx : x.IsDouble) : x.high ≤ 2 ^ (1024 : ℤ) := by
  have hgreatest := hx.le_greatest
  exact hx.high_lt.le.trans (zpow_le_zpow_right₀ (by norm_num) (by omega))

theorem Binary.IsDouble.digits_ne_zero (hx : x.IsDouble) {d : Scientific}
    (hd : x.Nearest d.value) : d.digits ≠ 0 := by
  intro h
  have := hx.le_low.trans hd.bounds.1
  rw [Scientific.value, h, Nat.cast_zero, zero_mul] at this
  exact absurd this (not_le.2 (by positivity))

theorem two_zpow_le_ten_zpow {k : ℤ} (hk : 0 ≤ k) : (2 : ℚ) ^ (3 * k) ≤ 10 ^ k := by
  rw [zpow_mul]
  exact zpow_le_zpow_left₀ hk (by norm_num) (by norm_num)

theorem ten_zpow_le_two_zpow {k : ℤ} (hk : k ≤ 0) : (10 : ℚ) ^ k ≤ 2 ^ (3 * k) := by
  have := inv_anti₀ (by positivity) (two_zpow_le_ten_zpow (k := -k) (by omega))
  rwa [zpow_neg, inv_inv, mul_neg, zpow_neg, inv_inv] at this

theorem lt_pow_length_decimalDigits (n : ℕ) : n < 10 ^ (decimalDigits n).length :=
  (Nat.length_toDigits_le_iff (by norm_num) Nat.length_toDigits_pos).1 le_rfl

theorem pow_length_decimalDigits_le (hn : 0 < n) : 10 ^ ((decimalDigits n).length - 1) ≤ n := by
  by_contra h
  rcases Nat.eq_zero_or_pos ((decimalDigits n).length - 1) with h0 | hpos
  · rw [h0] at h
    omega
  · have := (Nat.length_toDigits_le_iff (by norm_num) hpos).2 (not_le.1 h)
    have : (decimalDigits n).length ≤ (decimalDigits n).length - 1 := this
    omega

/-! ## Reading decimals -/

theorem mul_float {a b : Float} {m₁ m₂ : ℕ} {e₁ e₂ : ℤ} {h₁ : 0 < m₁} {h₂ : 0 < m₂}
    (hx : x.IsDouble) (ha : a.toModel.unpack = .finite .positive m₁ e₁ h₁)
    (hb : b.toModel.unpack = .finite .positive m₂ e₂ h₂) (hm : 2 ^ 52 ≤ m₁ * m₂)
    (hv : x.Nearest (m₁ * 2 ^ e₁ * (m₂ * 2 ^ e₂))) : a * b = x.float .positive hx.pos := by
  change Float.ofModel (.pack (UnpackedFloat.mul _ a.toModel.unpack b.toModel.unpack)) = _
  rw [ha, hb, mul_eq hx hm hv]
  rfl

theorem div_float {a b : Float} {m₁ m₂ : ℕ} {e₁ e₂ : ℤ} {h₁ : 0 < m₁} {h₂ : 0 < m₂}
    (hx : x.IsDouble) (ha : a.toModel.unpack = .finite .positive m₁ e₁ h₁)
    (hb : b.toModel.unpack = .finite .positive m₂ e₂ h₂)
    (hv : x.Nearest (m₁ * 2 ^ e₁ / (m₂ * 2 ^ e₂))) : a / b = x.float .positive hx.pos := by
  change Float.ofModel (.pack (UnpackedFloat.div _ a.toModel.unpack b.toModel.unpack)) = _
  rw [ha, hb, div_eq hx hv]
  rfl

/-- The double of a decimal is the one next to it. -/
theorem ofScientific_eq (hx : x.IsDouble) (hv : x.Nearest (n * 10 ^ e)) (hn : 0 < n)
    (hlarge : e ≤ 2 ^ 11) :
    Float.ofScientific n (e < 0) e.natAbs = x.float .positive hx.pos := by
  unfold Float.ofScientific
  split
  · -- the digits and the power of ten are doubles, and only their product or quotient is rounded
    rename_i h
    obtain ⟨m₁, e₁, h₁, hfirst, hnormal₁, hvalue₁⟩ := exists_toFloat hn h.1
    obtain ⟨m₂, e₂, h₂, hsecond, hnormal₂, hvalue₂⟩ := exists_powerOfTen (k := e.natAbs)
      (by simp [Float.exactlyRepresentablePowersOfTen]; omega)
    rcases lt_or_ge e 0 with he | he
    · rw [if_pos (by simpa using he)]
      refine div_float hx hfirst hsecond ?_
      rw [hvalue₁, hvalue₂, ← zpow_natCast, show ((e.natAbs : ℕ) : ℤ) = -e by omega, zpow_neg,
        div_inv_eq_mul]
      exact hv
    · rw [if_neg (by simpa using he)]
      refine mul_float hx hfirst hsecond (by nlinarith) ?_
      rw [hvalue₁, hvalue₂, ← zpow_natCast, show ((e.natAbs : ℕ) : ℤ) = e by omega]
      exact hv
  · -- exact arithmetic, behind a test for exponents that are far out of range
    have hsmall : -(2 ^ 11 + n.log2) ≤ e := by
      by_contra h
      have hpow : (n : ℚ) < 2 ^ ((n.log2 : ℤ) + 1) := by exact_mod_cast Nat.lt_log2_self
      have hlow := hx.le_low.trans hv.bounds.1
      have hhigh : (n * 10 ^ e : ℚ) ≤ 2 ^ ((n.log2 : ℤ) + 1 + 3 * e) := by
        rw [zpow_add₀ two_ne_zero]
        exact mul_le_mul hpow.le (ten_zpow_le_two_zpow (by omega)) (by positivity) (by positivity)
      have := (zpow_le_zpow_iff_right₀ (by norm_num : (1 : ℚ) < 2)).1 (hlow.trans hhigh)
      omega
    have hexponent : (if decide (e < 0) = true then Int.negOfNat e.natAbs else .ofNat e.natAbs) =
        e := by
      rw [Int.negOfNat_eq]
      exact signed_natAbs e
    have := unpacked_ofScientific_eq hx hv hn hlarge hsmall
    simp only [hexponent]
    exact congrArg (fun f => Float.ofModel (.pack f)) this

/-- A number below the greatest midpoint has no more than 400 digits before the point. -/
theorem length_add_exponent_le (hn : 0 < n) (h : (n * 10 ^ e : ℚ) ≤ 2 ^ (1024 : ℤ)) :
    (decimalDigits n).length + e ≤ 400 := by
  by_contra hlarge
  have hlength : 0 < (decimalDigits n).length := Nat.length_toDigits_pos
  have hpow : (10 : ℚ) ^ (((decimalDigits n).length : ℤ) - 1) ≤ n := by
    rw [← Nat.cast_pred hlength, zpow_natCast]
    exact_mod_cast pow_length_decimalDigits_le hn
  have hvalue : (2 : ℚ) ^ (3 * (((decimalDigits n).length : ℤ) - 1 + e)) ≤ n * 10 ^ e := by
    refine (two_zpow_le_ten_zpow (by omega)).trans ?_
    rw [zpow_add₀ (by norm_num)]
    gcongr
  have := (zpow_le_zpow_iff_right₀ (by norm_num : (1 : ℚ) < 2)).1 (hvalue.trans h)
  omega

/-- A number above the least midpoint has no more than 400 zeros after the point. -/
theorem le_length_add_exponent (h : 2 ^ (-1075 : ℤ) ≤ (n * 10 ^ e : ℚ)) :
    -400 ≤ (decimalDigits n).length + e := by
  by_contra hsmall
  have hpow : (n : ℚ) ≤ 10 ^ ((decimalDigits n).length : ℤ) := by
    rw [zpow_natCast]
    exact_mod_cast (lt_pow_length_decimalDigits n).le
  have hvalue : (n * 10 ^ e : ℚ) ≤ 2 ^ (3 * ((decimalDigits n).length + e)) := by
    refine le_trans ?_ (ten_zpow_le_two_zpow (by omega))
    rw [zpow_add₀ (by norm_num)]
    gcongr
  have := (zpow_le_zpow_iff_right₀ (by norm_num : (1 : ℚ) < 2)).1 (h.trans hvalue)
  omega

/-- The digits of a number are read as the double next to it. -/
theorem nearestFloat_eq (hx : x.IsDouble) {whole fraction : List Char} {exponent : ℤ}
    (hv : x.Nearest (ofDigits 10 (whole ++ fraction) * 10 ^ (exponent - fraction.length))) :
    nearestFloat whole fraction exponent = x.float .positive hx.pos := by
  simp only [nearestFloat]
  generalize ofDigits 10 (whole ++ fraction) = n at hv ⊢
  generalize exponent - fraction.length = e at hv ⊢
  have hlow := hx.le_low.trans hv.bounds.1
  have hhigh := hv.bounds.2.trans hx.high_le
  have hn : 0 < n := Nat.pos_of_ne_zero (hx.digits_ne_zero (d := ⟨n, e⟩) hv)
  have hlarge := length_add_exponent_le hn hhigh
  have hsmall := le_length_add_exponent hlow
  rw [if_neg hn.ne', if_neg (by omega), if_neg (by omega)]
  exact ofScientific_eq hx hv hn (by omega)

end

end TypedSettings.Number
