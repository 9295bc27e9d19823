import TypedSettings.Proofs.Text.Digits
import TypedSettings.Value.Printer

/-!
# Numbers in parts

The digits before and after the point and the exponent of a number in base ten. The text of a
finite double is a sign and the characters of such parts, which are those of its fewest digits
(`exists_parts_text`), and reading them takes the parts for what they are (`readMagnitude_chars`).
-/

namespace TypedSettings.Number

open Text

/-! ## Parts -/

/-- Digits, digits after a point if there is one, and an exponent if there is one. -/
structure Parts where
  whole : List Char
  fraction : Option (List Char)
  exponent : Option Int
  whole_digits : ∀ c ∈ whole, c.isDigit = true
  fraction_digits : ∀ ds ∈ fraction, ∀ c ∈ ds, c.isDigit = true

namespace Parts

def fractionChars (p : Parts) : List Char := p.fraction.elim [] ('.' :: ·)

def exponentChars (p : Parts) : List Char := p.exponent.elim [] ('e' :: ofInt ·)

def chars (p : Parts) : List Char := p.whole ++ (p.fractionChars ++ p.exponentChars)

def float (p : Parts) : Float := nearestFloat p.whole (p.fraction.getD []) (p.exponent.getD 0)

/-- The parts are those of the number `n * 10 ^ e`, apart from zeros at the end of its digits. -/
def HasValue (p : Parts) (n : Nat) (e : Int) : Prop :=
  ∃ j k : Nat, ofDigits 10 (p.whole ++ p.fraction.getD []) * Nat.pow 10 j = n * Nat.pow 10 k ∧
    p.exponent.getD 0 - (p.fraction.getD []).length + k = e + j

def isFloat (p : Parts) : Bool := p.fraction.isSome || p.exponent.isSome

variable (p : Parts)

theorem hasValue_mul_pow {n k : Nat} {e : Int} :
    p.HasValue (n * Nat.pow 10 k) e ↔ p.HasValue n (e + k) := by
  simp only [HasValue, Nat.pow_eq]
  constructor
  · rintro ⟨j, i, hn, he⟩
    exact ⟨j, k + i, by rw [hn, Nat.pow_add, Nat.mul_assoc], by omega⟩
  · rintro ⟨j, i, hn, he⟩
    exact ⟨j + k, i, by rw [Nat.pow_add, ← Nat.mul_assoc, hn, Nat.mul_right_comm], by omega⟩

theorem head_exponentChars : ∀ c ∈ p.exponentChars.head?, c = 'e' := by
  intro c hc
  unfold exponentChars at hc
  cases he : p.exponent with
  | none => simp [he] at hc
  | some n => simpa [he] using hc.symm

theorem head_after_whole :
    ∀ c ∈ (p.fractionChars ++ p.exponentChars).head?, c = '.' ∨ c = 'e' := by
  intro c hc
  unfold fractionChars at hc
  cases hf : p.fraction with
  | none =>
    rw [hf] at hc
    exact Or.inr (p.head_exponentChars c hc)
  | some ds => exact Or.inl (by simpa [hf] using hc.symm)

theorem head_chars : ∀ c ∈ p.chars.head?, c.isDigit = true ∨ c = '.' ∨ c = 'e' := by
  intro c hc
  unfold chars at hc
  cases hw : p.whole with
  | nil =>
    rw [hw] at hc
    exact Or.inr (p.head_after_whole c hc)
  | cons d ds =>
    obtain rfl : d = c := by simpa [hw] using hc
    exact Or.inl (p.whole_digits d (by simp [hw]))

end Parts

/-! ## Reading -/

theorem not_sign_of_isDigit {c : Char} (h : c.isDigit = true) : c ≠ '-' ∧ c ≠ '+' := by
  constructor <;> rintro rfl <;> simp at h

theorem readExponent_ofInt (n : Int) : readExponent ('e' :: ofInt n) = some n := by
  have hall : (decimalDigits n.natAbs).all Char.isDigit = true :=
    List.all_eq_true.2 fun c hc => isDigit_of_mem_decimalDigits hc
  have hne : (decimalDigits n.natAbs).isEmpty = false := by
    simpa using decimalDigits_ne_nil n.natAbs
  by_cases hn : n < 0
  · simp only [ofInt, if_pos hn, readExponent, true_or, if_true, hne, hall, Bool.not_false,
      Bool.and_self, ofDigits_decimalDigits]
    congr 1
    omega
  · obtain ⟨d, ds, hds⟩ := List.exists_cons_of_ne_nil (decimalDigits_ne_nil n.natAbs)
    have hd := not_sign_of_isDigit (c := d) (isDigit_of_mem_decimalDigits (by rw [hds]; simp))
    have hval : (ofDigits 10 (d :: ds) : Int) = n := by
      rw [← hds, ofDigits_decimalDigits]
      omega
    rw [hds] at hall hne
    simp only [ofInt, if_neg hn, hds, readExponent, true_or, if_true]
    split
    · rename_i h
      exact absurd (List.cons.inj h).1 hd.1
    · rename_i h
      exact absurd (List.cons.inj h).1 hd.2
    · simp only [hne, hall, Bool.not_false, Bool.and_self, Bool.false_eq_true, if_true, if_false,
        hval]

/-- What starts as a number is none of the words. -/
theorem toLower_ne {c : Char} (h : c.isDigit = true ∨ c = '.' ∨ c = 'e') :
    c.toLower ≠ 'i' ∧ c.toLower ≠ 'n' := by
  rcases h with h | rfl | rfl
  · obtain ⟨n, hn, rfl⟩ := exists_digitChar h
    have digits : ∀ n < 10, n.digitChar.toLower ≠ 'i' ∧ n.digitChar.toLower ≠ 'n' := by decide
    exact digits n hn
  · decide
  · decide

theorem readExponent_exponentChars (p : Parts) :
    readExponent p.exponentChars = some (p.exponent.getD 0) := by
  unfold Parts.exponentChars
  cases p.exponent with
  | none => rfl
  | some n => exact readExponent_ofInt n

/-- Parts with a digit are read as the double nearest to them. -/
theorem readMagnitude_chars (p : Parts) :
    readMagnitude p.chars =
      if p.whole.isEmpty && (p.fraction.getD []).isEmpty then none else some p.float := by
  have hword : ∀ w ∈ ['i', 'n'], ∀ ws, p.chars.map Char.toLower ≠ w :: ws := by
    intro w hw ws h
    obtain ⟨c, cs, hc, rfl, _⟩ := List.map_eq_cons_iff.1 h
    have := toLower_ne (p.head_chars c (by simp [hc]))
    simp_all
  have hwhole := takeWhile_run (r := p.fractionChars ++ p.exponentChars) p.whole_digits
    fun c hc => by rcases p.head_after_whole c hc with rfl | rfl <;> rfl
  have hexp : ∀ c ∈ p.exponentChars.head?, c.isDigit = false := fun c hc => by
    rw [p.head_exponentChars c hc]
    rfl
  have hrest := readExponent_exponentChars p
  simp only [readMagnitude, hword 'i' (by simp), hword 'n' (by simp), or_self, if_false]
  rw [Parts.chars, hwhole.1, hwhole.2]
  unfold Parts.fractionChars Parts.float
  cases hf : p.fraction with
  | none =>
    cases hx : p.exponentChars with
    | nil =>
      rw [hx] at hrest
      simp [hrest]
    | cons c cs =>
      obtain rfl : c = 'e' := p.head_exponentChars c (by simp [hx])
      rw [hx] at hrest
      simp [hrest]
  | some ds =>
    have hds := takeWhile_run (p.fraction_digits ds hf) hexp
    simp [hds, hrest]

/-! ## Writing -/

variable {l : FloatLayout}

/-- Digits on both sides of a point are the characters of parts. -/
theorem exists_parts_point {ws fs : List Char} (hw : ∀ c ∈ ws, c.isDigit = true)
    (hf : ∀ c ∈ fs, c.isDigit = true) (hn : ws = [] → fs = []) :
    ∃ p : Parts, p.chars = ws ++ '.' :: fs ∧ p.isFloat = true ∧
      (p.whole = [] → p.fraction.getD [] = []) ∧
      p.HasValue (ofDigits 10 (ws ++ fs)) (-fs.length) := by
  refine ⟨⟨ws, some fs, none, hw, ?_⟩, ?_, rfl, hn, 0, 0, rfl, by simp⟩
  · simpa only [Option.mem_some_iff, forall_eq'] using hf
  · simp [Parts.chars, Parts.fractionChars, Parts.exponentChars]

/-- The characters write the digits of a number, whose leading digit counts `10 ^ lead`, as a float.
If no digit stands before the point then none stands behind it. -/
def LaysOut (ds : List Char) (lead : Int) (cs : List Char) : Prop :=
  ∃ p : Parts, p.chars = cs ∧ p.isFloat = true ∧ (p.whole = [] → p.fraction.getD [] = []) ∧
    (ds ≠ [] → p.HasValue (ofDigits 10 ds) (lead + 1 - ds.length))

theorem isDigit_of_mem_zeros {n : Nat} : ∀ c ∈ List.replicate n '0', c.isDigit = true := by
  intro c hc
  rw [List.eq_of_mem_replicate hc]
  rfl

section
variable {ds : List Char} {lead : Int}

theorem laysOut_small (hd : ∀ c ∈ ds, c.isDigit = true) (h : lead < 0) :
    LaysOut ds lead ('0' :: '.' :: (List.replicate (-lead - 1).toNat '0' ++ ds)) := by
  obtain ⟨p, hp, hfloat, hw, hvalue⟩ := @exists_parts_point ['0']
    (List.replicate (-lead - 1).toNat '0' ++ ds) (by simp)
    (fun c hc => (List.mem_append.1 hc).elim (isDigit_of_mem_zeros c) (hd c)) (by simp)
  refine ⟨p, hp, hfloat, hw, fun _ => ?_⟩
  -- zeros in front say nothing
  have hdigits : ofDigits 10 (['0'] ++ (List.replicate (-lead - 1).toNat '0' ++ ds)) =
      ofDigits 10 ds := by
    rw [← List.append_assoc]
    exact ofDigits_zeros_append 10 ((-lead - 1).toNat + 1) ds
  have hexponent : -(((-lead - 1).toNat + ds.length : Nat) : Int) = lead + 1 - ds.length := by
    omega
  rwa [hdigits, List.length_append, List.length_replicate, hexponent] at hvalue

theorem laysOut_whole (hd : ∀ c ∈ ds, c.isDigit = true) (h : 0 ≤ lead)
    (hl : (ds.length : Int) ≤ lead + 1) :
    LaysOut ds lead (ds ++ List.replicate (lead.toNat + 1 - ds.length) '0' ++ ['.', '0']) := by
  have hne : ds ++ List.replicate (lead.toNat + 1 - ds.length) '0' ≠ [] := fun hnil => by
    have hlength := congrArg List.length hnil
    simp only [List.length_append, List.length_replicate, List.length_nil] at hlength
    omega
  obtain ⟨p, hp, hfloat, hw, hvalue⟩ := @exists_parts_point
    (ds ++ List.replicate (lead.toNat + 1 - ds.length) '0') ['0']
    (fun c hc => (List.mem_append.1 hc).elim (hd c) (isDigit_of_mem_zeros c)) (by simp)
    fun hnil => absurd hnil hne
  refine ⟨p, hp, hfloat, hw, fun _ => ?_⟩
  -- zeros behind, those up to the point and the one behind it, count as a power of ten
  have hdigits : ofDigits 10 (ds ++ List.replicate (lead.toNat + 1 - ds.length) '0' ++ ['0']) =
      ofDigits 10 ds * Nat.pow 10 (lead.toNat + 1 - ds.length + 1) := by
    rw [List.append_assoc, ← List.replicate_succ']
    exact ofDigits_append_zeros 10 ds _
  have hexponent : -((1 : Nat) : Int) + ((lead.toNat + 1 - ds.length + 1 : Nat) : Int) =
      lead + 1 - ds.length := by
    omega
  rwa [hdigits, p.hasValue_mul_pow, List.length_singleton, hexponent] at hvalue

theorem laysOut_inside (hd : ∀ c ∈ ds, c.isDigit = true) (h : 0 ≤ lead)
    (hl : lead + 1 < (ds.length : Int)) :
    LaysOut ds lead (ds.take (lead.toNat + 1) ++ '.' :: ds.drop (lead.toNat + 1)) := by
  obtain ⟨p, hp, hfloat, hw, hvalue⟩ := @exists_parts_point (ds.take (lead.toNat + 1))
    (ds.drop (lead.toNat + 1)) (fun c hc => hd c (List.mem_of_mem_take hc))
    (fun c hc => hd c (List.mem_of_mem_drop hc)) fun hnil => by
      obtain rfl : ds = [] := by simpa using hnil
      rfl
  refine ⟨p, hp, hfloat, hw, fun _ => ?_⟩
  have hexponent : -((ds.length - (lead.toNat + 1) : Nat) : Int) = lead + 1 - ds.length := by
    omega
  rwa [List.take_append_drop, List.length_drop, hexponent] at hvalue

theorem laysOut_exponent (hd : ∀ c ∈ ds, c.isDigit = true) :
    LaysOut ds lead (ds.take 1 ++ (if ds.length ≤ 1 then [] else '.' :: ds.drop 1) ++
      'e' :: ofInt lead) := by
  refine ⟨⟨ds.take 1, if ds.length ≤ 1 then none else some (ds.drop 1), some lead,
    fun c hc => hd c (List.mem_of_mem_take hc), ?_⟩, ?_, by simp [Parts.isFloat], fun h => ?_,
    fun hne => ?_⟩
  · split
    · simp
    · simpa only [Option.mem_some_iff, forall_eq'] using
        fun c hc => hd c (List.mem_of_mem_drop hc)
  · simp only [Parts.chars, Parts.fractionChars, Parts.exponentChars, Option.elim_some,
      List.append_assoc]
    split <;> rfl
  · obtain rfl : ds = [] := by simpa using h
    rfl
  · have hfraction : (if ds.length ≤ 1 then none else some (ds.drop 1)).getD [] = ds.drop 1 := by
      split
      · exact (List.drop_eq_nil_of_le ‹_›).symm
      · rfl
    have hpos := List.length_pos_iff.2 hne
    refine ⟨0, 0, ?_, ?_⟩
    · simp only [hfraction, List.take_append_drop]
    · simp only [hfraction, List.length_drop, Option.getD_some]
      omega

/-- However digits are laid out, they are the characters of parts of the same number. -/
theorem laysOut_layOut (hl : l.plusExponent = false) (hd : ∀ c ∈ ds, c.isDigit = true) :
    LaysOut ds lead (l.layOut ds lead) := by
  by_cases hrange : l.plainFrom ≤ lead ∧ lead < l.plainBelow
  · obtain ⟨hfrom, hbelow⟩ := hrange
    rcases Int.lt_or_le lead 0 with hneg | hpos
    · rw [layOut_small hfrom hbelow hneg]
      exact laysOut_small hd hneg
    · rcases Int.lt_or_le (lead + 1) ds.length with hlt | hle
      · rw [layOut_inside hfrom hbelow hpos hlt]
        exact laysOut_inside hd hpos hlt
      · rw [layOut_whole hfrom hbelow hpos hle]
        exact laysOut_whole hd hpos hle
  · rw [layOut_exponent (.inr hl) hrange]
    exact laysOut_exponent hd

end

/-- The text of a decimal is the characters of parts of the same number. -/
theorem exists_parts_ofScientific (hl : l.plusExponent = false) (d : Scientific) :
    ∃ p : Parts, p.chars = l.ofScientific d ∧ p.isFloat = true ∧
      (p.whole = [] → p.fraction.getD [] = []) ∧
      (d.digits ≠ 0 → p.HasValue d.digits d.exponent) := by
  -- zeros at the end of the digits are not written
  obtain ⟨zeros, rest, hreverse, hzeros, hrest⟩ :=
    exists_run (· == '0') (decimalDigits d.digits).reverse
  have hdrop : (decimalDigits d.digits).reverse.dropWhile (· == '0') = rest := by
    rw [hreverse]
    exact (takeWhile_run hzeros hrest).2
  have hdigits : decimalDigits d.digits = rest.reverse ++ List.replicate zeros.length '0' := by
    have hreplicate : zeros = List.replicate zeros.length '0' :=
      List.eq_replicate_iff.2 ⟨rfl, fun c hc => by simpa using hzeros c hc⟩
    rw [← List.reverse_reverse (decimalDigits d.digits), hreverse, List.reverse_append,
      ← List.reverse_replicate, ← hreplicate]
  have hd : ∀ c ∈ rest.reverse, c.isDigit = true := fun c hc =>
    isDigit_of_mem_decimalDigits (hdigits ▸ List.mem_append_left _ hc)
  obtain ⟨p, hp, hf, hw, hvalue⟩ :=
    @laysOut_layOut l rest.reverse (d.exponent + (decimalDigits d.digits).length - 1) hl hd
  refine ⟨p, by rw [hp, FloatLayout.ofScientific, hdrop], hf, hw, fun hne => ?_⟩
  have hnumber : d.digits = ofDigits 10 rest.reverse * Nat.pow 10 zeros.length := by
    rw [← ofDigits_append_zeros, ← hdigits, ofDigits_decimalDigits]
  have hnonempty : rest.reverse ≠ [] := by
    intro h
    rw [h, ofDigits_nil, Nat.zero_mul] at hnumber
    exact hne hnumber
  have hexponent : d.exponent + (decimalDigits d.digits).length - 1 + 1 - rest.reverse.length =
      d.exponent + zeros.length := by
    rw [hdigits, List.length_append, List.length_replicate]
    omega
  rw [hnumber, p.hasValue_mul_pow, ← hexponent]
  exact hvalue hnonempty

theorem readFloat_minus (s : List Char) :
    readFloat ('-' :: s) = (readMagnitude s).map (- ·) := rfl

theorem readFloat_chars (p : Parts) : readFloat p.chars = readMagnitude p.chars := by
  have hhead := p.head_chars
  unfold readFloat
  split
  · rename_i r hr
    have := hhead '-' (by simp [hr])
    simp at this
  · rename_i r hr
    have := hhead '+' (by simp [hr])
    simp at this
  · rfl

/-- The text of a finite double is a sign and the characters of parts, those of the fewest digits
if the double is not zero. -/
theorem exists_parts_text (hl : l.plusExponent = false) {x : Float} (hx : isFinite x = true) :
    ∃ p : Parts, l.text x = (if signBit x then '-' :: p.chars else p.chars) ∧
      p.isFloat = true ∧ (p.whole = [] → p.fraction.getD [] = []) ∧
      (magnitudeBits x = 0 → p.chars = ['0', '.', '0']) ∧
      let d := (Binary.ofBits (magnitudeBits x)).shortest l.tie
      (magnitudeBits x ≠ 0 → d.digits ≠ 0 → p.HasValue d.digits d.exponent) := by
  rw [isFinite, decide_eq_true_eq] at hx
  have hn : isNotANumber x = false := by
    rw [isNotANumber, decide_eq_false_iff_not, GT.gt, UInt64.lt_iff_toNat_lt]
    rw [UInt64.lt_iff_toNat_lt] at hx
    omega
  have hi : magnitudeBits x ≠ 0x7FF0000000000000 := by
    intro h
    rw [h] at hx
    exact absurd hx (by decide)
  unfold FloatLayout.text
  rw [hn, if_neg Bool.false_ne_true]
  simp only [if_neg hi]
  by_cases hz : magnitudeBits x = 0
  · obtain ⟨p, hp, hf, hw, _⟩ := @exists_parts_point ['0'] ['0'] (by simp) (by simp) (by simp)
    refine ⟨p, ?_, hf, hw, fun _ => hp, fun h => absurd hz h⟩
    simp only [if_pos hz, hp]
    rfl
  · obtain ⟨p, hp, hf, hw, hvalue⟩ :=
      exists_parts_ofScientific hl ((Binary.ofBits (magnitudeBits x)).shortest l.tie)
    refine ⟨p, ?_, hf, hw, fun h => absurd h hz, fun _ => hvalue⟩
    simp only [if_neg hz, hp]

/-- If the text of a finite double reads back, then a digit stands before the point, and the parts
with the sign are the double. -/
theorem exists_parts_of_readFloat (hl : l.plusExponent = false) {x : Float}
    (hx : isFinite x = true) (hread : readFloat (l.text x) = some x) :
    ∃ p : Parts, l.text x = (if signBit x then '-' :: p.chars else p.chars) ∧
      p.isFloat = true ∧ p.whole ≠ [] ∧ x = if signBit x then -p.float else p.float := by
  obtain ⟨p, hp, hf, hw, _⟩ := exists_parts_text hl hx
  have hmagnitude : readMagnitude p.chars ≠ none := by
    intro h
    rw [hp] at hread
    split at hread
    · simp [readFloat_minus, h] at hread
    · simp [readFloat_chars, h] at hread
  have hne : p.whole ≠ [] := by
    intro hnil
    exact hmagnitude (by simp [readMagnitude_chars, hnil, hw hnil])
  have hfloat : readMagnitude p.chars = some p.float := by
    simp [readMagnitude_chars, hne]
  refine ⟨p, hp, hf, hne, ?_⟩
  rw [hp] at hread
  split at hread
  · rename_i hs
    rw [readFloat_minus, hfloat] at hread
    simpa [hs] using hread.symm
  · rename_i hs
    rw [readFloat_chars, hfloat] at hread
    simpa [hs] using hread.symm

end TypedSettings.Number
