import Mathlib.Data.List.Induction
import Mathlib.Data.Nat.Digits.Defs
import TypedSettings.Literal.Numeral
import TypedSettings.Proofs.Text.Digits

/-!
# Magnitudes of integers

The number that digits write is their value in the positional system (`ofDigits_eq_positional`).
Adding the digits up and applying the sign in 128 bits gives the same 64-bit integers as doing so
without a bound (`wideInt?_eq`), and the negation there never overflows (`negOverflow_wide`).
-/

namespace TypedSettings.Literal

open Text

/-! ## Values of digits -/

/-- The number that digits write in a base, the last digit counting once. -/
def positional (base : Nat) (ds : List Char) : Nat :=
  Nat.ofDigits base (ds.map fun c => (digitValue? c).getD 0).reverse

theorem ofDigits_eq_positional (base : Nat) (ds : List Char) :
    ofDigits base ds = positional base ds := by
  induction ds using List.reverseRecOn with
  | nil => rfl
  | append_singleton ds c ih =>
    rw [ofDigits_append, ih, positional, positional, List.map_append, List.reverse_append,
      List.map_singleton, List.reverse_singleton, List.singleton_append, Nat.ofDigits_cons,
      Nat.add_comm, Nat.mul_comm]

/-- A zero stands in front of digits that are not all zeros. -/
def HasExtraZeros (ds : List Char) : Prop := ds.head? = some '0' ∧ ∃ d ∈ ds, d ≠ '0'

theorem hasLeadingZeros_iff {ds : List Char} : hasLeadingZeros ds = true ↔ HasExtraZeros ds := by
  have hlen : ds.head? = some '0' → (∃ d ∈ ds, d ≠ '0') → 1 < ds.length := by
    rintro hhead ⟨d, hd, hne⟩
    match ds with
    | [c] => simp_all
    | _ :: _ :: _ => simp
  simp only [hasLeadingZeros, HasExtraZeros, Bool.and_eq_true, decide_eq_true_eq, beq_iff_eq,
    List.any_eq_true, bne_iff_ne]
  exact ⟨fun h => ⟨h.1.2, h.2⟩, fun h => ⟨⟨hlen h.1 h.2, h.1⟩, h.2⟩⟩

theorem isDigitOf_ten : isDigitOf 10 = Char.isDigit := by
  funext c
  cases h : c.isDigit with
  | true =>
    obtain ⟨n, hn, rfl⟩ := exists_digitChar h
    have digits : ∀ n < 10, isDigitOf 10 n.digitChar = true := by decide
    exact digits n hn
  | false =>
    have hc : ¬ ('0' ≤ c ∧ c ≤ '9') := fun hc => by
      have hdigit : c.isDigit = true := by
        rw [Char.isDigit, Bool.and_eq_true, decide_eq_true_eq, decide_eq_true_eq]
        exact hc
      rw [h] at hdigit
      cases hdigit
    unfold isDigitOf digitValue?
    rw [if_neg hc]
    split
    · simp
    · split <;> simp

theorem isDigitOf_pause (base : Nat) : isDigitOf base '_' = false := rfl

/-! ## Sixty-four bits -/

section
variable {negative : Bool} {n : Nat}

/-- What fits 64 bits has an integer there. -/
theorem exists_signedInt? (hmin : -2 ^ 63 ≤ if negative then -(n : Int) else n)
    (hmax : (if negative then -(n : Int) else n) ≤ 2 ^ 63 - 1) :
    ∃ m, signedInt? negative n = some m ∧ m.toInt = if negative then -(n : Int) else n :=
  ⟨_, if_pos ⟨hmin, hmax⟩, Int64.toInt_ofInt_of_le hmin (Int.lt_of_le_sub_one hmax)⟩

/-- There is one integer for a sign and a magnitude at most, the one with that value. -/
theorem signedInt?_eq_some_iff {m : Int64} :
    signedInt? negative n = some m ↔ m.toInt = if negative then -(n : Int) else n := by
  constructor
  · intro h
    simp only [signedInt?, Option.ite_none_right_eq_some, Option.some.injEq] at h
    obtain ⟨hfits, rfl⟩ := h
    exact Int64.toInt_ofInt_of_le hfits.1 (Int.lt_of_le_sub_one hfits.2)
  · intro h
    rw [signedInt?, ← h, if_pos ⟨m.minValue_le_toInt, m.toInt_le⟩, Int64.ofInt_toInt]

theorem signedInt?_eq_none (h : ¬ (-2 ^ 63 ≤ (if negative then -(n : Int) else n) ∧
    (if negative then -(n : Int) else n) ≤ 2 ^ 63 - 1)) : signedInt? negative n = none := if_neg h

end

/-! ## Magnitudes in 128 bits -/

/-- The number that digits write, as far as every step on the way fits 127 bits. -/
def wideDigits? (base : Nat) (ds : List Char) : Option Nat :=
  ds.foldlM (fun n c =>
    let next := n * base + (digitValue? c).getD 0
    if next < 2 ^ 127 then some next else none) 0

/-- The 64-bit integer with a sign and digits by way of 128 bits, where the sign is applied. -/
def wideInt? (negative : Bool) (base : Nat) (ds : List Char) : Option Int64 :=
  (wideDigits? base ds).bind fun n =>
    let magnitude := BitVec.ofNat 128 n
    let signed := (if negative then -magnitude else magnitude).toInt
    if Int64.minValue.toInt ≤ signed ∧ signed ≤ Int64.maxValue.toInt then some (Int64.ofInt signed)
    else none

section
variable {base n : Nat}

theorem le_foldl_digits (hb : 0 < base) (ds : List Char) (n : Nat) :
    n ≤ ds.foldl (fun n c => n * base + (digitValue? c).getD 0) n := by
  induction ds generalizing n with
  | nil => exact Nat.le_refl n
  | cons c ds ih =>
    refine Nat.le_trans ?_ (ih _)
    exact Nat.le_add_right_of_le (Nat.le_mul_of_pos_right n hb)

/-- Digits are followed through unless the number they write is too large: it grows with them. -/
theorem wideDigits?_eq (hb : 0 < base) (ds : List Char) :
    wideDigits? base ds = if ofDigits base ds < 2 ^ 127 then some (ofDigits base ds) else none := by
  have hstart : ∀ n < 2 ^ 127, ds.foldlM (fun n c =>
      let next := n * base + (digitValue? c).getD 0
      if next < 2 ^ 127 then some next else none) n =
      if ds.foldl (fun n c => n * base + (digitValue? c).getD 0) n < 2 ^ 127 then
        some (ds.foldl (fun n c => n * base + (digitValue? c).getD 0) n) else none := by
    induction ds with
    | nil =>
      intro n hn
      exact (if_pos hn).symm
    | cons c ds ih =>
      intro n _
      simp only [List.foldlM_cons, List.foldl_cons]
      split
      · exact ih _ ‹_›
      · rename_i hnext
        have hle := le_foldl_digits hb ds (n * base + (digitValue? c).getD 0)
        exact (if_neg (by omega)).symm
  exact hstart 0 (by decide)

theorem toInt_wide (h : n < 2 ^ 127) : (BitVec.ofNat 128 n).toInt = n := by
  rw [BitVec.toInt_ofNat']
  exact Int.bmod_eq_of_le (by omega) (by omega)

/-- A magnitude is not the one number of 128 bits whose negation is too large. -/
theorem negOverflow_wide (h : n < 2 ^ 127) : (BitVec.ofNat 128 n).negOverflow = false := by
  rw [BitVec.negOverflow, toInt_wide h]
  exact beq_false_of_ne (by omega)

/-- Going by way of 128 bits makes no difference: what does not fit them does not fit 64 either. -/
theorem wideInt?_eq (hb : 0 < base) (negative : Bool) (ds : List Char) :
    wideInt? negative base ds = signedInt? negative (ofDigits base ds) := by
  rw [wideInt?, wideDigits?_eq hb]
  generalize ofDigits base ds = n
  by_cases hn : n < 2 ^ 127
  · have hsigned : (if negative then -BitVec.ofNat 128 n else BitVec.ofNat 128 n).toInt =
        if negative then -(n : Int) else n := by
      cases negative with
      | false => exact toInt_wide hn
      | true =>
        have hneg := BitVec.toInt_neg_of_not_negOverflow (x := BitVec.ofNat 128 n)
          (by simp [negOverflow_wide hn])
        rw [toInt_wide hn] at hneg
        exact hneg
    rw [if_pos hn, Option.bind_some, signedInt?]
    simp only [hsigned]
  · rw [if_neg hn, Option.bind_none]
    exact (signedInt?_eq_none (by split <;> omega)).symm

end

end TypedSettings.Literal
