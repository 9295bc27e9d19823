import TypedSettings.Text.Blank
import TypedSettings.Text.Digit

/-!
# Runs and digits

A run of characters ends where the first one stands that does not belong to it
(`takeWhile_run`). Trimming takes a run of blanks off at either end (`exists_trim`,
`trim_blanks`). The digits that write a number read back to it (`ofDigits_toDigits`), and in
base ten they are digits, at least one, and start with a zero for zero only (`decimalDigits_head`).
-/

namespace TypedSettings.Text

/-! ## Runs -/

/-- A character of a kind is none that is not of the kind. -/
theorem ne_of_kind {p : Char → Bool} {c d : Char} (hc : p c = true) (hd : p d = false) : c ≠ d := by
  rintro rfl
  rw [hc] at hd
  cases hd

/-- A run and the rest come apart where the rest starts with a character that is not in the run. -/
theorem takeWhile_run {p : Char → Bool} {run r : List Char} (hrun : ∀ c ∈ run, p c = true)
    (hr : ∀ c ∈ r.head?, p c = false) :
    (run ++ r).takeWhile p = run ∧ (run ++ r).dropWhile p = r := by
  rw [List.takeWhile_append_of_pos hrun, List.dropWhile_append_of_pos hrun]
  cases r with
  | nil => simp
  | cons c r => simp [hr c rfl]

/-- Characters start with a run, and the rest starts with a character that is not in it. -/
theorem exists_run (p : Char → Bool) (s : List Char) :
    ∃ run r, s = run ++ r ∧ (∀ c ∈ run, p c = true) ∧ ∀ c ∈ r.head?, p c = false := by
  refine ⟨s.takeWhile p, s.dropWhile p, List.takeWhile_append_dropWhile.symm,
    List.all_eq_true.1 List.all_takeWhile, fun c hc => ?_⟩
  have := List.head?_dropWhile_not p s
  rw [hc] at this
  simpa using this

/-! ## Blanks -/

/-- What the twenty-five blanks have in common every blank has. -/
theorem of_isBlank {P : Char → Prop} (hall : ∀ n ∈ blankRanges.flatMap fun r =>
    List.range' r.1 (r.2 + 1 - r.1), P (Char.ofNat n)) {c : Char} (h : isBlank c = true) : P c := by
  obtain ⟨r, hr, hc⟩ := List.any_eq_true.1 h
  simp only [Bool.and_eq_true, decide_eq_true_eq] at hc
  have hmem : c.toNat ∈ blankRanges.flatMap fun r => List.range' r.1 (r.2 + 1 - r.1) := by
    refine List.mem_flatMap.2 ⟨r, hr, ?_⟩
    rw [List.mem_range'_1]
    omega
  simpa using hall c.toNat hmem

/-- A text is what trimming leaves of it, between blanks. -/
theorem exists_trim (s : List Char) : ∃ before after, s = before ++ (trim s ++ after) ∧
    (∀ c ∈ before, isBlank c = true) ∧ ∀ c ∈ after, isBlank c = true := by
  obtain ⟨before, t, hs, hbefore, ht⟩ := exists_run isBlank s
  obtain ⟨after, u, hu, hafter, hend⟩ := exists_run isBlank t.reverse
  have htrim : trim s = u.reverse := by
    have hstart : trimStart s = t := by rw [hs, trimStart, (takeWhile_run hbefore ht).2]
    rw [trim, hstart, hu, trimStart, (takeWhile_run hafter hend).2]
  refine ⟨before, after.reverse, ?_, hbefore, fun c hc => hafter c (List.mem_reverse.1 hc)⟩
  rw [htrim, ← List.reverse_append, ← hu, List.reverse_reverse, hs]

/-- Trimming takes blanks off at both ends of a text that has none. -/
theorem trim_blanks {before s after : List Char} (hbefore : ∀ c ∈ before, isBlank c = true)
    (hafter : ∀ c ∈ after, isBlank c = true) (hs : ∀ c ∈ s, isBlank c = false) :
    trim (before ++ (s ++ after)) = s := by
  have hstart : ∀ {blanks t : List Char}, (∀ c ∈ blanks, isBlank c = true) →
      trimStart (blanks ++ t) = trimStart t := fun h => List.dropWhile_append_of_pos h
  rw [trim, hstart hbefore]
  cases s with
  | nil =>
    have hnone : trimStart after = [] := by
      have hblanks := hstart (t := []) hafter
      rwa [List.append_nil] at hblanks
    rw [List.nil_append, hnone]
    rfl
  | cons c s =>
    have hopen : trimStart (c :: (s ++ after)) = c :: (s ++ after) :=
      List.dropWhile_cons_of_neg (by simp [hs c])
    rw [List.cons_append, hopen, ← List.cons_append, List.reverse_append,
      hstart fun c hc => hafter c (List.mem_reverse.1 hc), trimStart]
    have hlast : ∀ d ∈ (c :: s).reverse.head?, isBlank d = false := fun d hd =>
      hs d (List.mem_reverse.1 (List.mem_of_mem_head? hd))
    have hkept := takeWhile_run (List.forall_mem_nil _) hlast
    rw [List.nil_append] at hkept
    rw [hkept.2, List.reverse_reverse]

/-! ## Digits -/

theorem exists_digitChar {c : Char} (h : c.isDigit = true) : ∃ n < 10, n.digitChar = c := by
  simp only [Char.isDigit, Bool.and_eq_true, decide_eq_true_eq, UInt32.le_iff_toNat_le] at h
  have hc : 48 ≤ c.toNat ∧ c.toNat ≤ 57 := h
  have digitChar_eq : ∀ n < 10, n.digitChar = Char.ofNat (48 + n) := by decide
  refine ⟨c.toNat - 48, by omega, ?_⟩
  rw [digitChar_eq _ (by omega), Nat.add_sub_cancel' hc.1, Char.ofNat_toNat]

theorem digitValue?_digitChar : ∀ n < 16, digitValue? n.digitChar = some n := by decide

/-- Reading the digits of a number gives the number. -/
theorem ofDigits_toDigits {base : Nat} (hb : 1 < base) (hb' : base ≤ 16) (n : Nat) :
    ofDigits base (Nat.toDigits base n) = n := by
  induction n using Nat.base_induction base hb with
  | single m hm =>
    have hm' : m < 16 := by omega
    simp [Nat.toDigits_of_lt_base hm, ofDigits, digitValue?_digitChar m hm']
  | digit m k hk hm ih =>
    have hk' : k < 16 := by omega
    rw [← Nat.toDigits_append_toDigits hb hm hk, Nat.toDigits_of_lt_base hk, ofDigits_append, ih,
      digitValue?_digitChar k hk', Option.getD_some, Nat.mul_comm]

theorem ofDigits_decimalDigits (n : Nat) : ofDigits 10 (decimalDigits n) = n :=
  ofDigits_toDigits (by decide) (by decide) n

/-- Zeros behind digits count as powers of the base. -/
theorem ofDigits_append_zeros (base : Nat) (ds : List Char) (k : Nat) :
    ofDigits base (ds ++ List.replicate k '0') = ofDigits base ds * Nat.pow base k := by
  induction k with
  | zero => simp
  | succ k ih =>
    have hzero : digitValue? '0' = some 0 := rfl
    rw [List.replicate_succ', ← List.append_assoc, ofDigits_append, ih, hzero, Option.getD_some,
      Nat.add_zero, Nat.pow_eq, Nat.pow_eq, Nat.pow_succ, Nat.mul_assoc]

/-- Zeros in front of digits count for nothing. -/
theorem ofDigits_zeros_append (base k : Nat) (ds : List Char) :
    ofDigits base (List.replicate k '0' ++ ds) = ofDigits base ds := by
  have hzeros : ofDigits base (List.replicate k '0') = 0 := by
    simpa [ofDigits_nil] using ofDigits_append_zeros base [] k
  rw [ofDigits, List.foldl_append]
  change ds.foldl _ (ofDigits base (List.replicate k '0')) = _
  rw [hzeros]
  rfl

theorem isDigit_of_mem_decimalDigits {n : Nat} {c : Char} (h : c ∈ decimalDigits n) :
    c.isDigit = true :=
  Nat.isDigit_of_mem_toDigits (by decide) (by decide) h

theorem decimalDigits_ne_nil (n : Nat) : decimalDigits n ≠ [] := Nat.toDigits_ne_nil

/-- Only the digits of zero start with a zero. -/
theorem decimalDigits_head {n : Nat} (h : (decimalDigits n).head? = some '0') : n = 0 := by
  induction n using Nat.base_induction 10 (by decide) with
  | single m hm =>
    have digitChar_eq : ∀ m < 10, some m.digitChar = some '0' → m = 0 := by decide
    rw [decimalDigits, Nat.toDigits_of_lt_base hm] at h
    exact digitChar_eq m hm h
  | digit m k hk hm ih =>
    rw [decimalDigits, ← Nat.toDigits_append_toDigits (by decide) hm hk, List.head?_append,
      List.head?_eq_some_head Nat.toDigits_ne_nil, Option.some_or,
      ← List.head?_eq_some_head Nat.toDigits_ne_nil] at h
    have := ih h
    omega

/-- An integer is its magnitude with its sign. -/
theorem signed_natAbs (n : Int) :
    (if decide (n < 0) = true then -(n.natAbs : Int) else n.natAbs) = n := by
  by_cases hn : n < 0
  · rw [if_pos (decide_eq_true hn)]
    omega
  · rw [if_neg (by simpa using hn)]
    omega

/-- The two digits of a number below 256 in base sixteen, a zero in front of one digit. -/
theorem hexDigits_eq {n : Nat} (h : n < 256) :
    List.replicate (2 - (Nat.toDigits 16 n).length) '0' ++ Nat.toDigits 16 n =
      [(n / 16).digitChar, (n % 16).digitChar] := by
  rw [Nat.toDigits_eq_if (by decide)]
  split
  · rename_i hn
    rw [Nat.div_eq_of_lt hn, Nat.mod_eq_of_lt hn]
    rfl
  · rw [Nat.toDigits_of_lt_base (by omega)]
    rfl

end TypedSettings.Text
