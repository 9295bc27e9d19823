import TypedSettings.Proofs.Literal.Grammar
import TypedSettings.Proofs.Literal.Magnitudes

/-!
# Escapes in texts

What a backslash and the characters behind it stand for, as a relation between those characters and
their meaning (`Escape`), and the escapes that stand for nothing (`BadEscape`). Every character
behind a backslash starts one or the other (`exists_escape`), and either decides how it is read
(`escape_of_escape`, `escape_of_badEscape`).
-/

namespace TypedSettings.Literal

open Text

/-! ## The grammar of escapes -/

/-- The one-letter escapes and what they stand for; a newline behind a backslash stands for
nothing. -/
def namedEscapes : List (Char × List Char) := [
  ('\n', []), ('\\', ['\\']), ('\x27', ['\x27']), ('\x22', ['\x22']), ('n', ['\n']), ('t', ['\t']),
  ('r', ['\r']), ('a', ['\x07']), ('b', ['\x08']), ('f', ['\x0c']), ('v', ['\x0b'])
]

/-- The marks of hexadecimal escapes and how many digits follow them. -/
def hexMarks : List (Char × Nat) := [('x', 2), ('u', 4), ('U', 8)]

/-- Digits of the base stand in front of the rest, at most so many: as many as there can be. -/
structure LongestRun (base width : Nat) (ds r : List Char) : Prop where
  isDigit : ∀ d ∈ ds, isDigitOf base d = true
  length_le : ds.length ≤ width
  ends : ds.length < width → ∀ d ∈ r.head?, isDigitOf base d = false

/-- What stands behind a backslash, and its meaning: a letter of the table; one to three octal
digits, as many as there are, or the digits of a hexadecimal escape, and the character with that
number; and any other character, which is kept with its backslash. -/
inductive Escape : Writes (List Char) where
  | named {c : Char} {cs r : List Char} : (c, cs) ∈ namedEscapes → Escape (c :: r) cs r
  | octal {c : Char} {ds r : List Char} : LongestRun 8 3 ds r → ds ≠ [] →
      c.toNat = positional 8 ds → Escape (ds ++ r) [c] r
  | hexadecimal {mark c : Char} {width : Nat} {ds r : List Char} : (mark, width) ∈ hexMarks →
      LongestRun 16 width ds r → ds.length = width → c.toNat = positional 16 ds →
      Escape (mark :: (ds ++ r)) [c] r
  | other {c : Char} {r : List Char} : c ∉ namedEscapes.map Prod.fst → c ∉ hexMarks.map Prod.fst →
      isDigitOf 8 c = false → Escape (c :: r) ['\\', c] r

/-- A hexadecimal escape that stands for no character, and its fault: too few digits follow the
mark, or the number that they write is that of no character. -/
inductive BadEscape : List Char → Fault Char Cause → Prop where
  | truncated {mark : Char} {width : Nat} {ds r : List Char} : (mark, width) ∈ hexMarks →
      LongestRun 16 width ds r → ds.length < width →
      BadEscape (mark :: (ds ++ r)) ⟨.truncatedEscape, r⟩
  | noCharacter {mark : Char} {width : Nat} {ds r : List Char} : (mark, width) ∈ hexMarks →
      LongestRun 16 width ds r → ds.length = width → ¬ (positional 16 ds).isValidChar →
      BadEscape (mark :: (ds ++ r)) ⟨.badCodePoint (positional 16 ds), r⟩

/-! ## Tables -/

section
variable {c : Char} {width : Nat} {cs : List Char}

theorem simpleEscape?_eq_some_iff : simpleEscape? c = some cs ↔ (c, cs) ∈ namedEscapes := by
  constructor
  · intro h
    unfold simpleEscape? at h
    split at h <;> cases h <;> decide
  · intro h
    have table : ∀ e ∈ namedEscapes, simpleEscape? e.1 = some e.2 := by decide
    exact table _ h

theorem hexWidth?_eq_some_iff : hexWidth? c = some width ↔ (c, width) ∈ hexMarks := by
  constructor
  · intro h
    unfold hexWidth? at h
    split at h <;> cases h <;> decide
  · intro h
    have table : ∀ e ∈ hexMarks, hexWidth? e.1 = some e.2 := by decide
    exact table _ h

theorem simpleEscape?_eq_none (h : c ∉ namedEscapes.map Prod.fst) : simpleEscape? c = none := by
  rw [Option.eq_none_iff_forall_ne_some]
  exact fun cs hcs => h (List.mem_map_of_mem (simpleEscape?_eq_some_iff.1 hcs))

theorem hexWidth?_eq_none (h : c ∉ hexMarks.map Prod.fst) : hexWidth? c = none := by
  rw [Option.eq_none_iff_forall_ne_some]
  exact fun width hwidth => h (List.mem_map_of_mem (hexWidth?_eq_some_iff.1 hwidth))

end

/-! ## Runs of digits -/

section
variable {base width n : Nat} {ds r s : List Char} {c d : Char}

/-- Characters start with a longest run. -/
theorem exists_longestRun (base width : Nat) (s : List Char) :
    ∃ ds r, s = ds ++ r ∧ LongestRun base width ds r := by
  induction width generalizing s with
  | zero => exact ⟨[], s, rfl, by simp, Nat.le_refl 0, by simp⟩
  | succ width ih =>
    cases s with
    | nil => exact ⟨[], [], rfl, by simp, Nat.zero_le _, by simp⟩
    | cons c s =>
      by_cases hc : isDigitOf base c = true
      · obtain ⟨ds, r, rfl, h⟩ := ih s
        refine ⟨c :: ds, r, rfl, List.forall_mem_cons.2 ⟨hc, h.isDigit⟩,
          Nat.succ_le_succ h.length_le, fun hlt => h.ends (Nat.lt_of_succ_lt_succ hlt)⟩
      · exact ⟨[], c :: s, rfl, by simp, Nat.zero_le _, by simpa using hc⟩

theorem LongestRun.tail (h : LongestRun base (width + 1) (d :: ds) r) :
    LongestRun base width ds r where
  isDigit := (List.forall_mem_cons.1 h.isDigit).2
  length_le := Nat.le_of_succ_le_succ h.length_le
  ends hlt := h.ends (Nat.succ_lt_succ hlt)

theorem ofDigits_singleton (base : Nat) (c : Char) :
    ofDigits base [c] = (digitValue? c).getD 0 := by
  simp [ofDigits]

theorem octalDigits_run (h : LongestRun 8 width ds r) : octalDigits width n (ds ++ r) =
    (ds.foldl (fun n c => n * 8 + (digitValue? c).getD 0) n, r) := by
  induction width generalizing n ds with
  | zero =>
    obtain rfl := List.eq_nil_of_length_eq_zero (Nat.le_zero.1 h.length_le)
    rfl
  | succ width ih =>
    cases ds with
    | nil =>
      cases r with
      | nil => rfl
      | cons c r =>
        have hc := h.ends (Nat.succ_pos width) c rfl
        simp [octalDigits, hc]
    | cons d ds =>
      rw [List.cons_append, octalDigits, if_pos (h.isDigit d (by simp)), ih h.tail,
        ofDigits_singleton, List.foldl_cons]

theorem hexDigits_run (h : LongestRun 16 width ds r) : hexDigits width n (ds ++ r) =
    if ds.length < width then .error ⟨.truncatedEscape, r⟩
    else .ok (ds.foldl (fun n c => n * 16 + (digitValue? c).getD 0) n, r) := by
  induction width generalizing n ds with
  | zero =>
    obtain rfl := List.eq_nil_of_length_eq_zero (Nat.le_zero.1 h.length_le)
    rfl
  | succ width ih =>
    cases ds with
    | nil =>
      cases r with
      | nil => rfl
      | cons c r =>
        have hc := h.ends (Nat.succ_pos width) c rfl
        simp [hexDigits, hc]
    | cons d ds =>
      rw [List.cons_append, hexDigits, if_pos (h.isDigit d (by simp)), ih h.tail,
        ofDigits_singleton, List.foldl_cons]
      simp only [List.length_cons, Nat.add_lt_add_iff_right]

end

/-! ## Reading escapes -/

section
variable {c : Char} {n : Nat} {s r cs : List Char} {f : Fault Char Cause}

theorem charOf_toNat (c : Char) (r : List Char) : charOf c.toNat r = .ok ([c], r) := by
  have hvalid : c.toNat.isValidChar := c.valid
  rw [charOf, if_pos hvalid, Char.ofNat_toNat]

theorem exists_char (h : n.isValidChar) : ∃ c : Char, c.toNat = n :=
  ⟨Char.ofNat n, by rw [Char.ofNat, dif_pos h]; rfl⟩

theorem not_named_of_octal (h : isDigitOf 8 c = true) : c ∉ namedEscapes.map Prod.fst := by
  have table : ∀ e ∈ namedEscapes, isDigitOf 8 e.1 = false := by decide
  intro hc
  obtain ⟨e, he, rfl⟩ := List.mem_map.1 hc
  rw [table e he] at h
  cases h

theorem not_named_of_hexMark {width : Nat} (h : (c, width) ∈ hexMarks) :
    c ∉ namedEscapes.map Prod.fst ∧ isDigitOf 8 c = false := by
  have table : ∀ e ∈ hexMarks, e.1 ∉ namedEscapes.map Prod.fst ∧ isDigitOf 8 e.1 = false := by
    decide
  exact table _ h

theorem escape_of_octal (hc : isDigitOf 8 c = true) {ds : List Char} (h : LongestRun 8 2 ds r) :
    escape c (ds ++ r) = charOf (positional 8 (c :: ds)) r := by
  rw [escape, simpleEscape?_eq_none (not_named_of_octal hc), ← ofDigits_eq_positional]
  simp only [hc, if_true, octalDigits_run h]
  rfl

theorem escape_of_hexMark {width : Nat} {ds : List Char} (hc : (c, width) ∈ hexMarks)
    (h : LongestRun 16 width ds r) : escape c (ds ++ r) =
      if ds.length < width then .error ⟨.truncatedEscape, r⟩ else charOf (positional 16 ds) r := by
  obtain ⟨hnamed, hoctal⟩ := not_named_of_hexMark hc
  rw [escape, simpleEscape?_eq_none hnamed, hexWidth?_eq_some_iff.2 hc, hoctal,
    ← ofDigits_eq_positional]
  simp only [hexDigits_run h, Bool.false_eq_true, if_false]
  split <;> rfl

/-- An escape is read as its meaning. -/
theorem escape_of_escape (h : Escape (c :: s) cs r) : escape c s = .ok (cs, r) := by
  generalize ht : c :: s = t at h
  cases h with
  | named hc =>
    cases ht
    rw [escape, simpleEscape?_eq_some_iff.2 hc]
  | @octal d ds _ hrun hne hd =>
    obtain ⟨c', ds, rfl⟩ := List.exists_cons_of_ne_nil hne
    rw [List.cons_append] at ht
    cases ht
    rw [escape_of_octal (hrun.isDigit c (by simp)) hrun.tail, ← hd, charOf_toNat]
  | hexadecimal hmark hrun hlen hd =>
    cases ht
    rw [escape_of_hexMark hmark hrun, if_neg (by omega), ← hd, charOf_toNat]
  | other hnamed hmark hoctal =>
    cases ht
    rw [escape, simpleEscape?_eq_none hnamed, hexWidth?_eq_none hmark, hoctal]
    rfl

/-- A bad escape is a fault. -/
theorem escape_of_badEscape (h : BadEscape (c :: s) f) : escape c s = .error f := by
  generalize ht : c :: s = t at h
  cases h with
  | truncated hmark hrun hlen =>
    cases ht
    rw [escape_of_hexMark hmark hrun, if_pos hlen]
  | noCharacter hmark hrun hlen hvalid =>
    cases ht
    rw [escape_of_hexMark hmark hrun, if_neg (by omega), charOf, if_neg hvalid]

/-- Three octal digits are the number of a character. -/
theorem isValidChar_of_octal {ds : List Char} (h : LongestRun 8 3 ds r) :
    (positional 8 ds).isValidChar := by
  have hdigits : ∀ d ∈ (ds.map fun c => (digitValue? c).getD 0).reverse, d < 8 := by
    intro d hd
    obtain ⟨c, hc, rfl⟩ := List.mem_map.1 (List.mem_reverse.1 hd)
    obtain ⟨n, hn, hlt⟩ := (Option.any_eq_true _ _).1 (h.isDigit c hc)
    rw [hn]
    simpa using hlt
  have hlt := Nat.ofDigits_lt_base_pow_length (by decide) hdigits
  have hpow : 8 ^ (ds.map fun c => (digitValue? c).getD 0).reverse.length ≤ 8 ^ 3 := by
    refine Nat.pow_le_pow_right (by decide) ?_
    simpa using h.length_le
  refine .inl ?_
  rw [positional]
  omega

/-- Behind a backslash an escape stands, or a bad one. -/
theorem exists_escape (c : Char) (s : List Char) :
    (∃ cs r, Escape (c :: s) cs r) ∨ ∃ f, BadEscape (c :: s) f := by
  by_cases hnamed : c ∈ namedEscapes.map Prod.fst
  · obtain ⟨⟨_, cs⟩, hc, rfl⟩ := List.mem_map.1 hnamed
    exact .inl ⟨cs, s, .named hc⟩
  by_cases hoctal : isDigitOf 8 c = true
  · obtain ⟨ds, r, hs, hrun⟩ := exists_longestRun 8 3 (c :: s)
    have hne : ds ≠ [] := by
      rintro rfl
      have hc := hrun.ends (by decide) c (by rw [← List.nil_append r, ← hs]; rfl)
      rw [hoctal] at hc
      cases hc
    obtain ⟨d, hd⟩ := exists_char (isValidChar_of_octal hrun)
    rw [hs]
    exact .inl ⟨_, r, .octal hrun hne hd⟩
  by_cases hhex : c ∈ hexMarks.map Prod.fst
  · obtain ⟨⟨mark, width⟩, hmark, rfl⟩ := List.mem_map.1 hhex
    obtain ⟨ds, r, rfl, hrun⟩ := exists_longestRun 16 width s
    rcases Nat.lt_or_eq_of_le hrun.length_le with hlt | heq
    · exact .inr ⟨_, .truncated hmark hrun hlt⟩
    by_cases hvalid : (positional 16 ds).isValidChar
    · obtain ⟨d, hd⟩ := exists_char hvalid
      exact .inl ⟨_, r, .hexadecimal hmark hrun heq hd⟩
    · exact .inr ⟨_, .noCharacter hmark hrun heq hvalid⟩
  · exact .inl ⟨_, s, .other hnamed hhex (by simpa using hoctal)⟩

end

end TypedSettings.Literal
