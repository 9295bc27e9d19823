import TypedSettings.Conversion.Scalar
import TypedSettings.Proofs.Literal.Integers

/-!
# Integers as overrides and as literals

An override is read as an integer by taking the separators out, a literal by counting digits and
underscores on the way. Both read the same texts: a sign or none, digits with single underscores
between them, and blanks at both ends (`SignedRun`). Taking the separators out leaves the digits
exactly if they are grouped (`withoutSeparators?_iff`), so that the override is the integer that the
digits and the sign write (`SignedRun.exists_overrideInt?_iff`). A literal of the same characters is
that integer, except that it may not start with zeros that say nothing
(`SignedRun.parse_of_writes`, `SignedRun.parse_of_extraZeros`). Main statement:
`overrideInt?_exact`.
-/

namespace TypedSettings

open Text Number Literal

/-! ## Blanks and signs -/

/-- No blank goes on with a number. -/
theorem not_continues_of_isBlank {c : Char} (h : isBlank c = true) :
    continuesNumber c = false ∧ inRun (isDigitOf 10) c = false ∧ baseOfMark? c = none :=
  of_isBlank (P := fun c => continuesNumber c = false ∧ inRun (isDigitOf 10) c = false ∧
    baseOfMark? c = none) (by decide +kernel) h

theorem isBlank_of_isSign {negative : Bool} {sign : List Char} (h : IsSign negative sign) :
    ∀ c ∈ sign, isBlank c = false := by
  cases h with
  | none => exact List.forall_mem_nil _
  | plus => exact List.forall_mem_singleton.2 (by decide)
  | minus => exact List.forall_mem_singleton.2 (by decide)

/-- A sign needs a number behind it, and nothing at all is no value. -/
theorem value_of_isSign [Payloads] {negative : Bool} {sign after : List Char}
    (h : IsSign negative sign) (hafter : dropTrivia after = []) (levels : Nat) :
    ∃ f, value (levels + 1) (sign ++ after) = .error f := by
  have hsign : ∀ c, isBlank c = false → c ≠ '#' → c = '+' ∨ c = '-' →
      ∃ f, value (levels + 1) (c :: after) = .error f := by
    intro c hblank hcomment hc
    rw [value, dropTrivia_of_noTrivia (noTrivia_cons hblank hcomment)]
    simp [valueFrom, hc, hafter, startsNumber]
  cases h with
  | none =>
    rw [List.nil_append, value, hafter]
    exact ⟨_, rfl⟩
  | plus => exact hsign '+' (by decide) (by decide) (.inl rfl)
  | minus => exact hsign '-' (by decide) (by decide) (.inr rfl)

/-! ## Separators -/

section
variable {s ds : List Char} {n : Int64}

/-- Characters without their separators are digits exactly if they are digits with single
underscores between them, and one in front of them only behind a digit. -/
theorem withoutSeparators?_iff {before : Option Char} :
    (withoutSeparators? before s = some ds ∧ ∀ c ∈ ds, c.isDigit = true) ↔
      Grouped Char.isDigit (before.any Char.isDigit) s ds := by
  constructor
  · rintro ⟨h, hds⟩
    induction s generalizing before ds with
    | nil =>
      cases h
      exact .done _
    | cons c s ih =>
      rw [withoutSeparators?] at h
      by_cases hc : c = '_'
      · subst hc
        rw [if_pos rfl] at h
        split at h
        · rename_i hbetween
          rw [Bool.and_eq_true] at hbetween
          rw [hbetween.1]
          have hrun : Grouped Char.isDigit false s ds := ih h hds
          -- a digit follows the underscore, so that the rest does not end right there
          cases hrun with
          | done => simp at hbetween
          | digit hd hrun => exact .pause hd hrun
        · cases h
      · rw [if_neg hc] at h
        obtain ⟨ds, hrest, rfl⟩ := Option.map_eq_some_iff.1 h
        obtain ⟨hdigit, hds⟩ := List.forall_mem_cons.1 hds
        have hrun := ih hrest hds
        rw [Option.any_some, hdigit] at hrun
        exact .digit hdigit hrun
  · intro h
    generalize hpause : before.any Char.isDigit = mayPause at h
    induction h generalizing before with
    | done => exact ⟨rfl, List.forall_mem_nil _⟩
    | @digit _ c run ds hc _ ih =>
      obtain ⟨hrun, hds⟩ := @ih (some c) hc
      refine ⟨?_, List.forall_mem_cons.2 ⟨hc, hds⟩⟩
      rw [withoutSeparators?, if_neg (ne_of_kind hc (by decide)), hrun]
      rfl
    | @pause c run ds hc _ ih =>
      obtain ⟨hrun, hds⟩ := @ih (some c) hc
      refine ⟨?_, List.forall_mem_cons.2 ⟨hc, hds⟩⟩
      have hne : c ≠ '_' := ne_of_kind hc (by decide)
      simp [withoutSeparators?, hpause, hc, hne, hrun]

theorem withoutSeparators?_digits {before : Option Char}
    (hbefore : before.any Char.isDigit = false) (hds : ∀ c ∈ ds, c.isDigit = true) :
    withoutSeparators? before s = some ds ↔ Grouped Char.isDigit false s ds := by
  rw [← hbefore, ← withoutSeparators?_iff]
  exact (and_iff_left hds).symm

theorem withoutSeparators?_cons {c : Char} (hc : c ≠ '_') :
    withoutSeparators? none s = some (c :: ds) ↔
      ∃ r, s = c :: r ∧ withoutSeparators? (some c) r = some ds := by
  cases s with
  | nil => simp [withoutSeparators?]
  | cons d s =>
    by_cases hd : d = '_'
    · simp [withoutSeparators?, hd, Ne.symm hc]
    · rw [withoutSeparators?, if_neg hd]
      simp only [Option.map_eq_some_iff, List.cons.injEq]
      constructor
      · rintro ⟨_, hs, rfl, rfl⟩
        exact ⟨s, ⟨rfl, rfl⟩, hs⟩
      · rintro ⟨r, ⟨rfl, rfl⟩, hr⟩
        exact ⟨ds, hr, rfl, rfl⟩

/-- A sign stays in front of the digits. -/
theorem withoutSeparators?_signed {negative : Bool} {sign : List Char}
    (hsign : IsSign negative sign) (hds : ∀ c ∈ ds, c.isDigit = true) :
    withoutSeparators? none s = some (sign ++ ds) ↔
      ∃ run, s = sign ++ run ∧ Grouped Char.isDigit false run ds := by
  have hmarked : ∀ c : Char, c ≠ '_' → c.isDigit = false →
      (withoutSeparators? none s = some (c :: ds) ↔
        ∃ run, s = c :: run ∧ Grouped Char.isDigit false run ds) := by
    intro c hpause hc
    rw [withoutSeparators?_cons hpause]
    exact exists_congr fun run => and_congr_right fun _ =>
      withoutSeparators?_digits (by simpa using hc) hds
  cases hsign with
  | none => simpa using withoutSeparators?_digits rfl hds
  | plus => exact hmarked '+' (by decide) (by decide)
  | minus => exact hmarked '-' (by decide) (by decide)

/-! ## Signed digits -/

theorem readInteger_signed {negative : Bool} {sign : List Char} (hsign : IsSign negative sign)
    (hne : ds ≠ []) (hds : ∀ c ∈ ds, c.isDigit = true) : readInteger (sign ++ ds) =
      some (if negative then -(ofDigits 10 ds : Int) else ofDigits 10 ds) := by
  cases hsign with
  | none =>
    obtain ⟨c, ds, rfl⟩ := List.exists_cons_of_ne_nil hne
    obtain ⟨hminus, hplus⟩ := not_sign_of_isDigit (hds c (by simp))
    unfold readInteger
    split <;> simp_all
  | plus => simpa [readInteger, hne] using hds
  | minus => simpa [readInteger, hne] using hds

/-- A sign or none and digits are the integer that they write, if it fits 64 bits. -/
theorem readInt64_signed {negative : Bool} {sign : List Char} (hsign : IsSign negative sign)
    (hne : ds ≠ []) (hds : ∀ c ∈ ds, c.isDigit = true) :
    readInt64 (sign ++ ds) = signedInt? negative (ofDigits 10 ds) := by
  rw [readInt64, readInteger_signed hsign hne hds]
  rfl

/-- Nothing but a sign or none and digits is read as an integer. -/
theorem exists_signed_of_readInteger {m : Int} (h : readInteger s = some m) :
    ∃ negative sign ds, s = sign ++ ds ∧ IsSign negative sign ∧ ds ≠ [] ∧
      ∀ c ∈ ds, c.isDigit = true := by
  unfold readInteger at h
  split at h
  · obtain ⟨⟨hne, hds⟩, -⟩ := by simpa using h
    exact ⟨true, ['-'], _, rfl, .minus, hne, hds⟩
  · obtain ⟨⟨hne, hds⟩, -⟩ := by simpa using h
    exact ⟨false, ['+'], _, rfl, .plus, hne, hds⟩
  · obtain ⟨⟨hne, hds⟩, -⟩ := by simpa using h
    exact ⟨false, [], _, rfl, .none, hne, hds⟩

end

/-! ## Texts of signed digits -/

/-- A sign or none, digits and underscores, and blanks at both ends. -/
structure SignedRun where
  before : List Char
  negative : Bool
  sign : List Char
  run : List Char
  after : List Char
  isBefore : before.all isBlank = true
  isSign : IsSign negative sign
  isRun : run.all (inRun Char.isDigit) = true
  isAfter : after.all isBlank = true

namespace SignedRun

def chars (t : SignedRun) : List Char := t.before ++ (t.sign ++ t.run ++ t.after)

def text (t : SignedRun) : String := String.ofList t.chars

/-- The run writes the digits, at least one, with single underscores between them. -/
def Writes (t : SignedRun) (ds : List Char) : Prop := Grouped Char.isDigit false t.run ds ∧ ds ≠ []

def signed (t : SignedRun) (ds : List Char) : Int :=
  if t.negative then -(positional 10 ds : Int) else positional 10 ds

section
variable {t : SignedRun} {ds : List Char} {n : Int64}

theorem toList_text (t : SignedRun) : t.text.toList = t.chars := String.toList_ofList

theorem not_isBlank (t : SignedRun) : ∀ c ∈ t.sign ++ t.run, isBlank c = false := by
  intro c hc
  rcases List.mem_append.1 hc with hc | hc
  · exact isBlank_of_isSign t.isSign c hc
  · have hrun := List.all_eq_true.1 t.isRun c hc
    rw [inRun, Bool.or_eq_true, beq_iff_eq] at hrun
    rcases hrun with hdigit | rfl
    · exact (isBlank_of_isDigit hdigit).1
    · decide

theorem trim_text (t : SignedRun) : trim t.text.toList = t.sign ++ t.run := by
  rw [toList_text, chars]
  exact trim_blanks (List.all_eq_true.1 t.isBefore) (List.all_eq_true.1 t.isAfter) t.not_isBlank

theorem signed_eq (t : SignedRun) (ds : List Char) : t.signed ds =
    if t.negative then -(ofDigits 10 ds : Int) else ofDigits 10 ds := by
  rw [signed, ofDigits_eq_positional]

/-- Grouped digits are the override that their sign and they write, if it fits 64 bits. -/
theorem overrideInt?_text (hw : t.Writes ds) :
    overrideInt? t.text = signedInt? t.negative (ofDigits 10 ds) := by
  have hdigits : Grouped Char.isDigit ((none : Option Char).any Char.isDigit) t.run ds := hw.1
  have hds := (withoutSeparators?_iff.2 hdigits).2
  have hnumber := (withoutSeparators?_signed t.isSign hds).2 ⟨t.run, rfl, hw.1⟩
  rw [overrideInt?, numberText?, trim_text, hnumber, Option.bind_some]
  exact readInt64_signed t.isSign hw.2 hds

/-- Nothing but a sign or none, grouped digits and blanks at both ends is an override of an
integer. -/
theorem exists_text_of_overrideInt? {raw : String} (h : overrideInt? raw = some n) :
    ∃ t : SignedRun, t.text = raw ∧ ∃ ds, t.Writes ds := by
  obtain ⟨number, hnumber, hread⟩ := Option.bind_eq_some_iff.1 h
  obtain ⟨m, hinteger, -⟩ := Option.bind_eq_some_iff.1 hread
  obtain ⟨negative, sign, ds, rfl, hsign, hne, hds⟩ := exists_signed_of_readInteger hinteger
  obtain ⟨run, htrim, hrun⟩ := (withoutSeparators?_signed hsign hds).1 hnumber
  obtain ⟨before, after, hraw, hbefore, hafter⟩ := exists_trim raw.toList
  refine ⟨⟨before, negative, sign, run, after, List.all_eq_true.2 hbefore, hsign,
    List.all_eq_true.2 hrun.forall_inRun, List.all_eq_true.2 hafter⟩, ?_, ds, hrun, hne⟩
  rw [text, chars, ← htrim, ← hraw, String.ofList_toList]

/-- An override is an integer exactly if signed digits write it and it fits 64 bits. -/
theorem exists_overrideInt?_iff {raw : String} {n : Int} :
    (∃ m : Int64, overrideInt? raw = some m ∧ m.toInt = n) ↔
      (∃ t : SignedRun, t.text = raw ∧ ∃ ds, t.Writes ds ∧ t.signed ds = n) ∧
        -2 ^ 63 ≤ n ∧ n ≤ 2 ^ 63 - 1 := by
  constructor
  · rintro ⟨m, h, rfl⟩
    obtain ⟨t, rfl, ds, hw⟩ := exists_text_of_overrideInt? h
    rw [overrideInt?_text hw, signedInt?_eq_some_iff, ← signed_eq] at h
    exact ⟨⟨t, rfl, ds, hw, h.symm⟩, m.le_toInt, Int.le_sub_one_of_lt m.toInt_lt⟩
  · rintro ⟨⟨t, rfl, ds, hw, rfl⟩, hmin, hmax⟩
    rw [signed_eq] at hmin hmax ⊢
    rw [overrideInt?_text hw]
    exact exists_signedInt? hmin hmax

/-! ## Literals of signed digits -/

theorem not_continues_after (t : SignedRun) : ∀ c ∈ t.after.head?, continuesNumber c = false ∧
    inRun (isDigitOf 10) c = false ∧ baseOfMark? c = none :=
  fun c hc => not_continues_of_isBlank
    (List.all_eq_true.1 t.isAfter c (List.mem_of_mem_head? hc))

/-- A text with something between its sign and the blanks behind it starts as a number does, behind
the blanks in front. -/
def numberText (t : SignedRun) (hne : t.run ≠ []) : NumberText where
  negative := t.negative
  sign := t.sign
  blanks := []
  base := 10
  mark := []
  run := t.run
  rest := t.after
  isSign := t.isSign
  isBlank := rfl
  isMark := .decimal
  isRun := isDigitOf_ten ▸ t.isRun
  ends := (Option.any_eq_false _ _).2 fun c hc => by simp [(t.not_continues_after c hc).2.1]
  starts _ := hne
  unmarked _ _ := Option.bind_eq_none_iff.2 fun c hc => (t.not_continues_after c hc).2.2

theorem trivia_text (t : SignedRun) : Trivia t.text.toList (t.sign ++ (t.run ++ t.after)) := by
  rw [toList_text, chars, List.append_assoc]
  exact trivia_blanks (List.all_eq_true.1 t.isBefore) _

theorem trivia_after (t : SignedRun) : Trivia t.after [] := by
  have hblanks := trivia_blanks (List.all_eq_true.1 t.isAfter) []
  rwa [List.append_nil] at hblanks

theorem trivia_numberText (hne : t.run ≠ []) :
    Trivia t.text.toList (t.numberText hne).chars := t.trivia_text

/-- The number is the same digits, in base ten. -/
theorem writes_numberText {hne : t.run ≠ []} : (t.numberText hne).Writes ds ↔ t.Writes ds := by
  rw [NumberText.Writes, Writes]
  simp only [numberText, isDigitOf_ten, bne_self_eq_false]

/-- No fraction and no exponent stands behind the run. -/
theorem not_startsFloat_after (t : SignedRun) : ¬ StartsFloat t.after := by
  have hend : ∀ c, t.after.head? = some c → continuesNumber c = false := fun c hc =>
    (t.not_continues_after c hc).1
  rintro (hpoint | ⟨mark, _, sign, d, r, hexponent, hmark, _, _⟩)
  · exact absurd (hend '.' hpoint) (by decide)
  · have hend := hend mark (by rw [hexponent]; rfl)
    rcases hmark with rfl | rfl
    · exact absurd hend (by decide)
    · exact absurd hend (by decide)

variable [Payloads]

/-- Digits without zeros that say nothing are a literal of the integer that they write. -/
theorem parse_of_writes (hw : t.Writes ds) (hzeros : ¬ HasExtraZeros ds)
    (hn : signedInt? t.negative (ofDigits 10 ds) = some n) : parse t.text = .ok (.int n) := by
  have hne : t.run ≠ [] := mt hw.1.eq_nil_iff.2 hw.2
  have hwrites : (t.numberText hne).Writes ds := writes_numberText.2 hw
  have hnumber := NumberText.number_eq_intValue hwrites
    (fun c hc => (t.not_continues_after c hc).1) fun _ => hzeros
  refine NumberText.parse_of_number (trivia_numberText hne) hwrites ?_ t.trivia_after
  exact hnumber.trans (intValue_eq_ok_iff.2 ⟨rfl, n, rfl, hn⟩)

/-- Zeros that say nothing are no literal. -/
theorem parse_of_extraZeros (hw : t.Writes ds) (hzeros : HasExtraZeros ds) :
    ∃ e, parse t.text = .error e := by
  have hne : t.run ≠ [] := mt hw.1.eq_nil_iff.2 hw.2
  cases hparse : parse t.text with
  | error e => exact ⟨e, rfl⟩
  | ok v =>
    obtain ⟨r, hnumber⟩ := NumberText.number_of_parse (trivia_numberText hne) hparse
    exact absurd hnumber (NumberText.number_ne_of_extraZeros (writes_numberText.2 hw) rfl hzeros
      t.not_startsFloat_after)

/-- A sign alone, or nothing, is no literal. -/
theorem parse_of_nil (hrun : t.run = []) : ∃ e, parse t.text = .error e := by
  have hraw := t.trivia_text
  rw [hrun, List.nil_append] at hraw
  obtain ⟨f, hf⟩ := value_of_isSign t.isSign t.trivia_after.dropTrivia_eq maxDepth
  rw [parse_eq_of_value, value_congr hraw.dropTrivia_eq, hf]
  exact ⟨_, rfl⟩

/-- What is read as a literal of an integer is the same integer as an override. -/
theorem overrideInt?_of_parse (h : parse t.text = .ok (.int n)) : overrideInt? t.text = some n := by
  by_cases hrun : t.run = []
  · obtain ⟨e, he⟩ := parse_of_nil hrun
    rw [he] at h
    cases h
  · obtain ⟨r, hnumber⟩ := NumberText.number_of_parse (trivia_numberText hrun) h
    obtain ⟨ds, hw, ⟨m, hm, hn, _⟩ | ⟨_, _, x, hx⟩⟩ := NumberText.number_cases hnumber
    · cases hm
      exact (overrideInt?_text (writes_numberText.1 hw)).trans hn
    · cases hx

end

end SignedRun

/-- For every text: as an override it is an integer exactly if it is a sign or none and digits with
single underscores between them, blanks at both ends, that write the integer, and the integer fits
64 bits. As a literal it is then the same integer, unless its digits start with zeros that say
nothing: then it is no literal. A literal of an integer that is a sign or none, digits and
underscores, with blanks at both ends, is the same integer as an override. -/
theorem overrideInt?_exact [Payloads] (raw : String) :
    (∀ n : Int, (∃ m : Int64, overrideInt? raw = some m ∧ m.toInt = n) ↔
      (∃ t : SignedRun, t.text = raw ∧ ∃ ds, t.Writes ds ∧ t.signed ds = n) ∧
        -2 ^ 63 ≤ n ∧ n ≤ 2 ^ 63 - 1) ∧
    ∀ t : SignedRun, t.text = raw → ∀ n : Int64,
      (overrideInt? raw = some n → ∀ ds, t.Writes ds →
        (¬ HasExtraZeros ds → parse raw = .ok (.int n)) ∧
        (HasExtraZeros ds → ∃ e, parse raw = .error e)) ∧
      (parse raw = .ok (.int n) → overrideInt? raw = some n) := by
  refine ⟨fun n => SignedRun.exists_overrideInt?_iff, ?_⟩
  rintro t rfl n
  refine ⟨fun h ds hw => ⟨fun hzeros => ?_, SignedRun.parse_of_extraZeros hw⟩,
    SignedRun.overrideInt?_of_parse⟩
  rw [SignedRun.overrideInt?_text hw] at h
  exact SignedRun.parse_of_writes hw hzeros h

open Payloads.Integers in
theorem overrideInt?_exact_samples :
    (∃ m : Int64, overrideInt? "\u3000-9_223_372_036_854_775_808\n" = some m ∧
      m.toInt = -9223372036854775808) ∧
    (overrideInt? "\t+1_0 " = some 10 ∧ parse "\t+1_0 " = .ok (.int 10)) ∧
    (overrideInt? "007" = some 7 ∧ ∃ e, parse "007" = .error e) ∧
    parse " -0_0\n" = .ok (.int 0) ∧ overrideInt? " -0_0\n" = some 0 := by
  have hten : overrideInt? "\t+1_0 " = some 10 := by decide +kernel
  have hseven : overrideInt? "007" = some 7 := by decide +kernel
  have hzero : parse " -0_0\n" = .ok (.int 0) := rfl
  refine ⟨?_, ⟨hten, ?_⟩, ⟨hseven, ?_⟩, hzero, ?_⟩
  · let t : SignedRun := ⟨['\u3000'], true, ['-'], "9_223_372_036_854_775_808".toList, ['\n'],
      by decide, .minus, by decide, by decide⟩
    refine ((overrideInt?_exact _).1 _).2 ⟨⟨t, by decide +kernel, "9223372036854775808".toList,
      ⟨by repeat' constructor, by decide⟩, ?_⟩, by decide, by decide⟩
    rw [SignedRun.signed_eq]
    decide +kernel
  · let t : SignedRun := ⟨['\t'], false, ['+'], ['1', '_', '0'], [' '], by decide, .plus,
      by decide, by decide⟩
    exact ((((overrideInt?_exact _).2 t (by decide +kernel) 10).1 hten) ['1', '0']
      ⟨by repeat' constructor, by decide⟩).1 (by simp [HasExtraZeros])
  · let t : SignedRun := ⟨[], false, [], "007".toList, [], by decide, .none, by decide, by decide⟩
    exact ((((overrideInt?_exact _).2 t (by decide +kernel) 7).1 hseven) "007".toList
      ⟨by repeat' constructor, by decide⟩).2 ⟨rfl, '7', by decide, by decide⟩
  · let t : SignedRun := ⟨[' '], true, ['-'], ['0', '_', '0'], ['\n'], by decide, .minus,
      by decide, by decide⟩
    exact ((overrideInt?_exact _).2 t (by decide +kernel) 0).2 hzero

end TypedSettings
