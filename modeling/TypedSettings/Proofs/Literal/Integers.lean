import TypedSettings.Proofs.Literal.NumberText
import TypedSettings.Proofs.Literal.Recognition

/-!
# Integers as they are read

The value of a text that starts as a number does is its number (`NumberText.value_of_writes`,
`NumberText.number_of_value`). So digits that end the text are read as the integer that they write,
or are too large at the first digit, and everything else that is no float is rejected. Main
statement: `parse_integer`.
-/

namespace TypedSettings.Literal

open Text Number

/-! ## The value of a text -/

namespace NumberText

section
variable [Payloads]

variable {t : NumberText} {ds r : List Char} {v : Value}

omit [Payloads] in
/-- The text starts with a digit, or in base ten with an underscore, and then writes no digits. -/
theorem exists_body (t : NumberText) : ∃ c s, t.body = c :: s ∧
    (c.isDigit = true ∨ c = '_' ∧ ∀ ds, ¬ t.Writes ds) := by
  by_cases hb : t.base = 10
  · match hrun : t.run with
    | [] => exact absurd hrun (t.starts hb)
    | c :: run =>
      have hc := List.all_eq_true.1 t.isRun c (by rw [hrun]; exact List.mem_cons_self)
      rw [inRun, hb, isDigitOf_ten, Bool.or_eq_true, beq_iff_eq] at hc
      refine ⟨c, run ++ t.rest, by rw [body_of_decimal hb, hrun]; rfl, hc.imp_right ?_⟩
      rintro rfl
      refine ⟨rfl, fun ds hw => ?_⟩
      rw [Writes, hb, hrun] at hw
      obtain ⟨d, run', hd, hdigit⟩ := hw.1.head_isDigit hw.2
      cases hd
      cases hdigit
  · have hmark := t.isMark
    rw [body]
    generalize t.mark = mark at hmark
    generalize t.base = base at hb hmark
    rcases hmark with _ | _ | _ | _
    · exact absurd rfl hb
    all_goals exact ⟨'0', _, rfl, .inl rfl⟩

/-- The value of a text without a sign starts with the first character behind the blanks; a sign
has to be followed by a number. -/
theorem value_chars (levels : Nat) {c : Char} {s : List Char} (hs : t.body = c :: s)
    (hc : c.isDigit = true ∨ c = '_') : value (levels + 1) t.chars =
      if t.sign = [] then valueFrom (value levels) c s
      else if startsNumber t.body then number t.negative t.body
      else .error ⟨.signWithoutNumber, t.chars⟩ := by
  have hopens : NoTrivia t.body := by
    rw [hs]
    rcases hc with hc | rfl
    · exact noTrivia_cons (isBlank_of_isDigit hc).1 (isBlank_of_isDigit hc).2.1
    · exact noTrivia_cons (by decide) (by decide)
  have hbody : dropTrivia (t.blanks ++ t.body) = t.body := by
    rw [dropTrivia_blanks (List.all_eq_true.1 t.isBlank),
      dropTrivia_of_noTrivia hopens]
  have hsign := t.isSign
  rw [chars]
  generalize t.negative = negative at hsign ⊢
  generalize t.sign = sign at hsign ⊢
  -- a sign is no trivia, and what follows it is the number
  have hsigned : ∀ u, dropTrivia ('+' :: u) = '+' :: u ∧ dropTrivia ('-' :: u) = '-' :: u :=
    fun u => ⟨dropTrivia_of_noTrivia (noTrivia_cons (by decide) (by decide)),
      dropTrivia_of_noTrivia (noTrivia_cons (by decide) (by decide))⟩
  cases hsign with
  | none =>
    rw [List.nil_append, value, hbody, hs]
    rfl
  | plus =>
    rw [List.singleton_append, value, (hsigned _).1]
    simp only [valueFrom, hbody, true_or, if_true]
    rfl
  | minus =>
    rw [List.singleton_append, value, (hsigned _).2]
    simp only [valueFrom, hbody, or_true, if_true]
    rfl

omit [Payloads] in
theorem negative_of_sign (h : t.sign = []) : t.negative = false := by
  have hsign := t.isSign
  rw [h] at hsign
  generalize t.negative = negative at hsign ⊢
  cases hsign
  rfl

/-- Behind the sign and the blanks a number that starts with a digit is read. -/
theorem value_of_isDigit (levels : Nat) {c : Char} {s : List Char} (hs : t.body = c :: s)
    (hc : c.isDigit = true) : value (levels + 1) t.chars = number t.negative t.body := by
  have hstarts : startsNumber (c :: s) = true := by
    rw [startsNumber_cons (ne_of_kind hc (by decide)), hc]
  obtain ⟨hminus, hplus⟩ := not_sign_of_isDigit hc
  rw [value_chars levels hs (.inl hc), hs, hstarts]
  split
  · rw [negative_of_sign ‹_›]
    exact (if_neg (by simp [hminus, hplus])).trans (if_pos hstarts)
  · rfl

/-- No value starts with an underscore. -/
theorem value_of_underscore (levels : Nat) {s : List Char} (hs : t.body = '_' :: s) :
    ∃ f, value (levels + 1) t.chars = .error f := by
  have hstarts : startsNumber ('_' :: s) = false := startsNumber_cons (by decide) s
  rw [value_chars levels hs (.inr rfl), hs, hstarts]
  split
  · have hnamed : valueFrom (value levels) '_' s = named ('_' :: s) := by
      simp [valueFrom, hstarts, isQuote]
    rw [hnamed]
    have hword : isWordChar '_' = true := rfl
    unfold named
    simp only [List.takeWhile_cons, hword, if_true]
    split
    · rw [if_neg (by simp)]
      exact ⟨_, rfl⟩
    · simp
  · exact ⟨_, rfl⟩

/-- What a text is read as is its number. -/
theorem number_of_value (levels : Nat) (h : value (levels + 1) t.chars = .ok (v, r)) :
    number t.negative t.body = .ok (v, r) := by
  obtain ⟨c, s, hs, hc | ⟨rfl, -⟩⟩ := t.exists_body
  · rwa [← value_of_isDigit levels hs hc]
  · obtain ⟨f, hf⟩ := value_of_underscore levels hs
    rw [hf] at h
    cases h

theorem value_of_writes (levels : Nat) (hw : t.Writes ds) :
    value (levels + 1) t.chars = number t.negative t.body := by
  obtain ⟨c, s, hs, hc | ⟨-, hnone⟩⟩ := t.exists_body
  · exact value_of_isDigit levels hs hc
  · exact absurd hw (hnone ds)

omit [Payloads] in
theorem toList_text (t : NumberText) : t.text.toList = t.chars := String.toList_ofList

omit [Payloads] in
theorem trivia_text (t : NumberText) : Trivia t.text.toList t.chars :=
  t.toList_text ▸ .done t.chars

theorem number_of_parse {raw : String} (hraw : Trivia raw.toList t.chars) (h : parse raw = .ok v) :
    ∃ r, number t.negative t.body = .ok (v, r) := by
  rw [parse_eq_of_value, value_congr hraw.dropTrivia_eq] at h
  split at h
  · cases h
  · rename_i w r hvalue
    refine ⟨r, number_of_value maxDepth ?_⟩
    split at h
    · cases h
      exact hvalue
    · cases h

/-- A number between trivia is read. -/
theorem parse_of_number {raw : String} (hraw : Trivia raw.toList t.chars) (hw : t.Writes ds)
    (h : number t.negative t.body = .ok (v, r)) (hr : Trivia r []) : parse raw = .ok v := by
  have hend : dropTrivia r = [] := hr.dropTrivia_eq
  rw [parse_eq_of_value, value_congr hraw.dropTrivia_eq, value_of_writes maxDepth hw, h]
  simp [hend]

theorem parse_of_tooLarge (hw : t.Writes ds)
    (h : number t.negative t.body = .error ⟨.tooLarge, t.body⟩) :
    parse t.text = .error ⟨.tooLarge, t.sign.length + t.blanks.length⟩ := by
  have hposition : t.chars.length - t.body.length = t.sign.length + t.blanks.length := by
    rw [chars, List.length_append, List.length_append]
    omega
  rw [parse_eq_of_value, toList_text, value_of_writes maxDepth hw, h]
  exact congrArg _ (congrArg _ hposition)

/-- What cannot be read as a number is rejected. -/
theorem rejected_of (h : ∀ v r, number t.negative t.body ≠ .ok (v, r)) : t.Rejected := by
  cases hparse : parse t.text with
  | error e => exact ⟨e, hparse⟩
  | ok v =>
    obtain ⟨r, hr⟩ := number_of_parse t.trivia_text hparse
    exact absurd hr (h v r)

/-! ## Integers -/

theorem number_eq_intValue (hw : t.Writes ds)
    (hend : ∀ c ∈ t.rest.head?, continuesNumber c = false)
    (hzeros : t.base = 10 → ¬ HasExtraZeros ds) :
    number t.negative t.body = intValue t.negative t.base t.body ds t.rest :=
  number_of_writes hw hend fun hb =>
    Bool.eq_false_iff.2 fun h => hzeros hb (hasLeadingZeros_iff.1 h)

omit [Payloads] in
theorem signed_eq (t : NumberText) (ds : List Char) : t.signed ds =
    if t.negative then -(ofDigits t.base ds : Int) else ofDigits t.base ds := by
  rw [signed, ofDigits_eq_positional]

theorem parse_of_fits (hw : t.Writes ds) (hrest : t.rest = [])
    (hzeros : t.base = 10 → ¬ HasExtraZeros ds)
    (hfits : -2 ^ 63 ≤ t.signed ds ∧ t.signed ds ≤ 2 ^ 63 - 1) :
    ∃ n : Int64, n.toInt = t.signed ds ∧ parse t.text = .ok (.int n) := by
  rw [signed_eq] at hfits ⊢
  obtain ⟨n, hn, hvalue⟩ := exists_signedInt? hfits.1 hfits.2
  refine ⟨n, hvalue, parse_of_number t.trivia_text hw (r := []) ?_ (.done [])⟩
  rw [number_eq_intValue hw (by simp [hrest]) hzeros, intValue, hn, hrest]

theorem parse_of_not_fits (hw : t.Writes ds) (hrest : t.rest = [])
    (hzeros : t.base = 10 → ¬ HasExtraZeros ds)
    (hfits : ¬ (-2 ^ 63 ≤ t.signed ds ∧ t.signed ds ≤ 2 ^ 63 - 1)) :
    parse t.text = .error ⟨.tooLarge, t.sign.length + t.blanks.length⟩ := by
  rw [signed_eq] at hfits
  refine parse_of_tooLarge hw ?_
  rw [number_eq_intValue hw (by simp [hrest]) hzeros, intValue, signedInt?_eq_none hfits]

/-! ## Rejected texts -/

omit [Payloads] in
theorem Writes.unique {ds' : List Char} (h : t.Writes ds) (h' : t.Writes ds') : ds = ds' :=
  h.1.unique h'.1 (isDigitOf_pause t.base)

theorem rejected_of_not_writes (h : ¬ ∃ ds, t.Writes ds) : t.Rejected :=
  rejected_of fun _ _ hnumber => by
    obtain ⟨ds, hw, _⟩ := number_cases hnumber
    exact h ⟨ds, hw⟩

theorem number_ne_of_extraZeros (hw : t.Writes ds) (hb : t.base = 10) (hzeros : HasExtraZeros ds)
    (hfloat : ¬ StartsFloat t.rest) : number t.negative t.body ≠ .ok (v, r) := by
  intro hnumber
  obtain ⟨ds', hw', ⟨_, _, _, hplain, _⟩ | ⟨_, h, _⟩⟩ := number_cases hnumber
  · rw [← hw.unique hw', hasLeadingZeros_iff.2 hzeros] at hplain
    exact absurd (hplain hb).1 (by simp)
  · exact hfloat h

theorem rejected_of_extraZeros (hw : t.Writes ds) (hb : t.base = 10) (hzeros : HasExtraZeros ds)
    (hfloat : ¬ StartsFloat t.rest) : t.Rejected :=
  rejected_of fun _ _ => number_ne_of_extraZeros hw hb hzeros hfloat

theorem rejected_of_continues {c : Char} (hc : c ∈ t.rest.head?)
    (hcontinues : isWordChar c = true ∨ c = '.') (hfloat : ¬ (t.base = 10 ∧ StartsFloat t.rest)) :
    t.Rejected := by
  refine rejected_of fun _ _ hnumber => ?_
  obtain ⟨_, _, ⟨_, _, _, _, hend⟩ | ⟨hb, h, _⟩⟩ := number_cases hnumber
  · have hcontinue := hend c hc
    rcases hcontinues with h | rfl
    · simp [continuesNumber, h] at hcontinue
    · simp [continuesNumber] at hcontinue
  · exact hfloat ⟨hb, h⟩

/-! ## Floats -/

theorem float_of_parse (hb : t.base = 10) (hfloat : StartsFloat t.rest) (h : parse t.text = .ok v) :
    ∃ x, v = .float x := by
  obtain ⟨r, hnumber⟩ := number_of_parse t.trivia_text h
  obtain ⟨_, _, ⟨_, _, _, hplain, _⟩ | ⟨_, _, hv⟩⟩ := number_cases hnumber
  · exact absurd hfloat (hplain hb).2
  · exact hv

theorem parse_of_float (hw : t.Writes ds) (hb : t.base = 10) (hfloat : StartsFloat t.rest)
    {f e : List Char} (hf : IsFraction f) (he : IsExponent e) (hrest : t.rest = f ++ e) :
    ∃ x, parse t.text = .ok (.float x) := by
  have hne : t.rest ≠ [] := by
    intro hnil
    rw [hnil] at hfloat
    rcases hfloat with h | ⟨_, _, _, _, _, h, _⟩ <;> cases h
  obtain ⟨x, hx⟩ := number_of_float hw hb hf he hrest hne
  exact ⟨x, parse_of_number t.trivia_text hw hx (.done [])⟩

end

end NumberText

theorem base_pos {base : Nat} {mark : List Char} (h : IsMark base mark) : 0 < base := by
  cases h <;> decide

/-- A text that starts as a number does: digits that end it, in base ten without zeros that say
nothing, are the integer that they and the sign write if it fits 64 bits, and too large at the first
digit if not. A run that writes no digits is rejected, as are zeros that say nothing in base ten,
and a word character or a point behind the digits, unless it starts a fraction or an exponent in
base ten; that makes the number a float. Going by way of 128 bits changes nothing, and the negation
there never overflows. -/
theorem parse_integer [Payloads] (t : NumberText) :
    (∀ ds, t.Writes ds → t.rest = [] → (t.base = 10 → ¬ HasExtraZeros ds) →
      (-2 ^ 63 ≤ t.signed ds ∧ t.signed ds ≤ 2 ^ 63 - 1 →
        ∃ n : Int64, n.toInt = t.signed ds ∧ parse t.text = .ok (.int n)) ∧
      (¬ (-2 ^ 63 ≤ t.signed ds ∧ t.signed ds ≤ 2 ^ 63 - 1) → ∃ e, parse t.text = .error e ∧
        e.cause.message = "integer literal too large" ∧
        e.position = t.sign.length + t.blanks.length)) ∧
    ((¬ ∃ ds, t.Writes ds) → t.Rejected) ∧
    (∀ ds, t.Writes ds → t.base = 10 → HasExtraZeros ds → ¬ StartsFloat t.rest → t.Rejected) ∧
    (∀ c ∈ t.rest.head?, isWordChar c = true ∨ c = '.' → ¬ (t.base = 10 ∧ StartsFloat t.rest) →
      t.Rejected) ∧
    (t.base = 10 → StartsFloat t.rest → (∀ v, parse t.text = .ok v → ∃ x, v = .float x) ∧
      ∀ ds f e, t.Writes ds → IsFraction f → IsExponent e → t.rest = f ++ e →
        ∃ x, parse t.text = .ok (.float x)) ∧
    ∀ ds, wideInt? t.negative t.base ds = signedInt? t.negative (ofDigits t.base ds) ∧
      ∀ n, wideDigits? t.base ds = some n → (BitVec.ofNat 128 n).negOverflow = false := by
  refine ⟨fun ds hw hrest hzeros => ⟨t.parse_of_fits hw hrest hzeros, fun hfits => ?_⟩,
    t.rejected_of_not_writes, fun ds => t.rejected_of_extraZeros, fun c => t.rejected_of_continues,
    fun hb hfloat => ⟨fun v => t.float_of_parse hb hfloat,
      fun ds f e hw => t.parse_of_float hw hb hfloat⟩,
    fun ds => ⟨wideInt?_eq (base_pos t.isMark) t.negative ds, fun n hn => ?_⟩⟩
  · exact ⟨_, t.parse_of_not_fits hw hrest hzeros hfits, rfl, rfl⟩
  · rw [wideDigits?_eq (base_pos t.isMark)] at hn
    split at hn
    · cases hn
      exact negOverflow_wide ‹_›
    · cases hn

open Payloads.Integers in
theorem parse_integer_samples :
    (∃ t : NumberText, t.text = "- \t9_223_372_036_854_775_808" ∧
      ∃ n : Int64, n.toInt = -9223372036854775808 ∧ parse t.text = .ok (.int n)) ∧
    (∃ t : NumberText, t.text = "0x_8000_0000_0000_0000" ∧ ∃ e, parse t.text = .error e ∧
      e.cause.message = "integer literal too large" ∧ e.position = 0) ∧
    (∃ t : NumberText, t.text = "0b1_2" ∧ t.Rejected) ∧
    (∃ t : NumberText, t.text = "007" ∧ t.Rejected) ∧
    (∃ t : NumberText, t.text = "1_0f" ∧ t.Rejected) ∧
    ∃ t : NumberText, t.text = "1_0.5e-3" ∧ ∃ x, parse t.text = .ok (.float x) := by
  refine ⟨?_, ?_, ?_, ?_, ?_, ?_⟩
  · refine ⟨⟨true, ['-'], [' ', '\t'], 10, [], "9_223_372_036_854_775_808".toList, [], .minus,
      by decide, .decimal, by decide, by decide, by decide, by decide⟩, by decide +kernel, ?_⟩
    refine (((parse_integer _).1 "9223372036854775808".toList
      ⟨by repeat' constructor, by decide⟩ rfl (fun _ => by simp [HasExtraZeros])).1
      (by rw [NumberText.signed_eq]; decide +kernel)).imp fun n hn => ⟨hn.1.trans ?_, hn.2⟩
    rw [NumberText.signed_eq]
    decide +kernel
  · refine ⟨⟨false, [], [], 16, ['0', 'x'], "_8000_0000_0000_0000".toList, [], .none, by decide,
      .hexadecimal (.inl rfl), by decide, by decide, by decide, by decide⟩, by decide +kernel, ?_⟩
    exact ((parse_integer _).1 "8000000000000000".toList ⟨by repeat' constructor, by decide⟩ rfl
      (fun hb => by cases hb)).2 (by rw [NumberText.signed_eq]; decide +kernel)
  · refine ⟨⟨false, [], [], 2, ['0', 'b'], ['1', '_'], ['2'], .none, by decide, .binary (.inl rfl),
      by decide, by decide, by decide, by decide⟩, by decide +kernel, ?_⟩
    refine (parse_integer _).2.1 ?_
    rintro ⟨ds, hrun, _⟩
    cases hrun with
    | digit _ hrun =>
      cases hrun with
      | digit hpause _ => cases hpause
  · refine ⟨⟨false, [], [], 10, [], "007".toList, [], .none, by decide, .decimal, by decide,
      by decide, by decide, by decide⟩, by decide +kernel, ?_⟩
    exact (parse_integer _).2.2.1 "007".toList ⟨by repeat' constructor, by decide⟩ rfl
      ⟨rfl, '7', by decide, by decide⟩ (by rintro (h | ⟨_, _, _, _, _, h, _⟩) <;> cases h)
  · refine ⟨⟨false, [], [], 10, [], "1_0".toList, ['f'], .none, by decide, .decimal, by decide,
      by decide, by decide, by decide⟩, by decide +kernel, ?_⟩
    refine (parse_integer _).2.2.2.1 'f' rfl (.inl rfl) ?_
    rintro ⟨_, h | ⟨_, _, _, _, _, h, hmark, _⟩⟩
    · cases h
    · rw [← (List.cons.inj h).1] at hmark
      rcases hmark with hmark | hmark <;> cases hmark
  · refine ⟨⟨false, [], [], 10, [], "1_0".toList, ".5e-3".toList, .none, by decide, .decimal,
      by decide, by decide, by decide, by decide⟩, by decide +kernel, ?_⟩
    exact ((parse_integer _).2.2.2.2.1 rfl (.inl rfl)).2 "10".toList ['.', '5'] ['e', '-', '3']
      ⟨by repeat' constructor, by decide⟩ (.some (grouped_digits false (List.all_eq_true.1 rfl)))
      (.some (.inl rfl) .minus (grouped_digits false (List.all_eq_true.1 rfl)) (by decide)) rfl

end TypedSettings.Literal
