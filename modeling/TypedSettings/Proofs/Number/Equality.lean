import TypedSettings.Proofs.Number.Nearest
import TypedSettings.Number.Decimal

/-!
# Equality of numbers

Doubles are compared as numbers: two are equal if they are the same number, or zeros of whatever
sign (`unpacked_beq_iff`). On doubles that are numbers this is an equivalence (`float_beq_refl`,
`float_beq_symm`, `float_beq_trans`), and so is equality of decimals (`Decimal.equal_trans`).
-/

namespace TypedSettings

open Float.Model

namespace Number

theorem finite_beq_iff {s : UnpackedFloat.Sign} {m n : Nat} {e f : Int} (hm : 0 < m) (hn : 0 < n) :
    (UnpackedFloat.finite s m e hm).beq (.finite s n f hn) = true ↔ m = n ∧ e = f := by
  cases s with
  | positive =>
    change (some ((compare e f).then (compare m n)) == some .eq) = true ↔ _
    simp [Ordering.then_eq_eq, and_comm]
  | negative =>
    change (some ((compare e f).then (compare m n)).swap == some .eq) = true ↔ _
    simp [Ordering.then_eq_eq, and_comm]

/-- Which unpacked doubles are equal. -/
theorem unpacked_beq_iff {a b : UnpackedFloat} :
    a.beq b = true ↔
      a ≠ .notANumber ∧ a = b ∨ (∃ s, a = .zero s) ∧ ∃ s, b = .zero s := by
  constructor
  · intro h
    cases a with
    | notANumber => cases h
    | infinity s =>
      refine .inl ⟨nofun, ?_⟩
      cases b with
      | infinity t => cases s <;> cases t <;> first | rfl | cases h
      | _ => cases s <;> cases h
    | zero s =>
      cases b with
      | zero t => exact .inr ⟨⟨s, rfl⟩, t, rfl⟩
      | infinity t => cases t <;> cases h
      | finite t => cases t <;> cases h
      | notANumber => cases h
    | finite s m e hm =>
      refine .inl ⟨nofun, ?_⟩
      cases b with
      | finite t n f hn =>
        have hsign : s = t := by
          cases s <;> cases t <;> first | rfl | cases h
        subst hsign
        obtain ⟨rfl, rfl⟩ := (finite_beq_iff hm hn).1 h
        rfl
      | infinity t => cases s <;> cases t <;> cases h
      | _ => cases s <;> cases h
  · rintro (⟨hne, rfl⟩ | ⟨⟨s, rfl⟩, t, rfl⟩)
    · cases a with
      | notANumber => exact absurd rfl hne
      | infinity s => cases s <;> rfl
      | zero => rfl
      | finite s m e hm => exact (finite_beq_iff hm hm).2 ⟨rfl, rfl⟩
    · rfl

section
variable {x y z : Float}

theorem float_beq_iff :
    (x == y) = true ↔ IsNumber x ∧ x.toModel.unpack = y.toModel.unpack ∨
      (∃ s, x.toModel.unpack = .zero s) ∧ ∃ s, y.toModel.unpack = .zero s :=
  unpacked_beq_iff

theorem float_beq_refl (h : IsNumber x) : (x == x) = true :=
  float_beq_iff.2 (.inl ⟨h, rfl⟩)

theorem isNumber_iff : IsNumber x ↔ (x == x) = true := by
  refine ⟨float_beq_refl, fun h => ?_⟩
  rcases float_beq_iff.1 h with ⟨hx, _⟩ | ⟨⟨s, hx⟩, _⟩
  · exact hx
  · rw [IsNumber, hx]
    simp

theorem float_beq_symm (h : (x == y) = true) : (y == x) = true := by
  rw [float_beq_iff] at h ⊢
  rcases h with ⟨hx, hxy⟩ | ⟨hx, hy⟩
  · exact .inl ⟨fun hy => hx (hxy.trans hy), hxy.symm⟩
  · exact .inr ⟨hy, hx⟩

theorem float_beq_trans (hxy : (x == y) = true) (hyz : (y == z) = true) : (x == z) = true := by
  rw [float_beq_iff] at hxy hyz ⊢
  rcases hxy with ⟨hx, hxy⟩ | ⟨hx, hy⟩
  · rw [IsNumber, hxy]
    exact hyz
  · rcases hyz with ⟨_, hyz⟩ | ⟨_, hz⟩
    · exact .inr ⟨hx, hyz ▸ hy⟩
    · exact .inr ⟨hx, hz⟩

end

end Number

/-- Scales are positive powers of ten, so that the middle decimal's can be cancelled. -/
theorem Decimal.equal_trans {a b c : Decimal} (hab : a.equal b = true) (hbc : b.equal c = true) :
    a.equal c = true := by
  rw [equal_iff] at *
  have hpos : (0 : Int) < Int.pow 10 b.scale := Int.pow_pos (by decide)
  refine Int.eq_of_mul_eq_mul_right (Int.ne_of_gt hpos) ?_
  calc a.unscaled * Int.pow 10 c.scale * Int.pow 10 b.scale
      = a.unscaled * Int.pow 10 b.scale * Int.pow 10 c.scale := Int.mul_right_comm ..
    _ = b.unscaled * Int.pow 10 c.scale * Int.pow 10 a.scale := by
      rw [hab, Int.mul_right_comm]
    _ = c.unscaled * Int.pow 10 a.scale * Int.pow 10 b.scale := by
      rw [hbc, Int.mul_right_comm]

end TypedSettings
