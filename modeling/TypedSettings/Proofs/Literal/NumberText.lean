import TypedSettings.Proofs.Literal.DigitGroups
import TypedSettings.Proofs.Literal.Magnitudes
import TypedSettings.Proofs.Literal.Written

/-!
# Numbers taken apart

A text that starts as a number does is a sign, blanks, the mark of a base, the longest run of digits
and underscores, and the rest (`NumberText`). If its number is read, the run is grouped and it is an
integer that fits, with nothing behind it that belongs to a number, or in base ten a float
(`NumberText.number_cases`). The other way round, digits are an integer if nothing behind them
belongs to a number (`NumberText.number_of_writes`), and with a fraction or an exponent a float
(`NumberText.number_of_float`).
-/

namespace TypedSettings.Literal

open Text Number

/-! ## The parts of a text -/

/-- A sign in front of a number, or none; whether it is a minus. -/
inductive IsSign : Bool → List Char → Prop where
  | none : IsSign false []
  | plus : IsSign false ['+']
  | minus : IsSign true ['-']

/-- A base and the mark in front of its digits, which is a zero and a letter, and none in base
ten. -/
inductive IsMark : Nat → List Char → Prop where
  | decimal : IsMark 10 []
  | hexadecimal {c : Char} : c = 'x' ∨ c = 'X' → IsMark 16 ['0', c]
  | octal {c : Char} : c = 'o' ∨ c = 'O' → IsMark 8 ['0', c]
  | binary {c : Char} : c = 'b' ∨ c = 'B' → IsMark 2 ['0', c]

/-- A text that starts as a number does: a sign, blanks, the mark of a base, digits of the base and
underscores as far as they go, and the rest. In base ten there is some digit or underscore, and a
lone zero is not the start of a mark. -/
structure NumberText where
  negative : Bool
  sign : List Char
  blanks : List Char
  base : Nat
  mark : List Char
  run : List Char
  rest : List Char
  isSign : IsSign negative sign
  isBlank : blanks.all isBlank = true
  isMark : IsMark base mark
  isRun : run.all (inRun (isDigitOf base)) = true
  ends : rest.head?.any (inRun (isDigitOf base)) = false
  starts : base = 10 → run ≠ []
  unmarked : base = 10 → run = ['0'] → rest.head?.bind baseOfMark? = none

/-- An exponent starts here: its mark, a sign or none, and a digit. -/
def StartsExponent (s : List Char) : Prop :=
  ∃ mark negative sign d r, s = mark :: (sign ++ d :: r) ∧ (mark = 'e' ∨ mark = 'E') ∧
    IsSign negative sign ∧ d.isDigit = true

/-- A fraction or an exponent starts here, which makes the digits before it a float. -/
def StartsFloat (s : List Char) : Prop := s.head? = some '.' ∨ StartsExponent s

/-- A point and grouped digits or none, or no fraction. -/
inductive IsFraction : List Char → Prop where
  | none : IsFraction []
  | some {run ds : List Char} : Grouped Char.isDigit false run ds → IsFraction ('.' :: run)

/-- A mark, a sign or none, and grouped digits, or no exponent. -/
inductive IsExponent : List Char → Prop where
  | none : IsExponent []
  | some {mark : Char} {negative : Bool} {sign run ds : List Char} : mark = 'e' ∨ mark = 'E' →
      IsSign negative sign → Grouped Char.isDigit false run ds → ds ≠ [] →
      IsExponent (mark :: (sign ++ run))

namespace NumberText

variable (t : NumberText)

def body : List Char := t.mark ++ (t.run ++ t.rest)

def chars : List Char := t.sign ++ (t.blanks ++ t.body)

def text : String := String.ofList t.chars

/-- The run writes the digits, at least one: with single underscores between them, and one behind
the mark of a base. -/
def Writes (ds : List Char) : Prop :=
  Grouped (isDigitOf t.base) (t.base != 10) t.run ds ∧ ds ≠ []

def signed (ds : List Char) : Int :=
  if t.negative then -(positional t.base ds : Int) else positional t.base ds

variable [Payloads]

def Rejected : Prop := ∃ e, parse t.text = .error e

end NumberText

/-! ## Fractions and exponents -/

section
variable {s r : List Char}

theorem signOf_sign {negative : Bool} {sign : List Char} (h : IsSign negative sign) {d : Char}
    (hd : d.isDigit = true) (r : List Char) : signOf (sign ++ d :: r) = (negative, d :: r) := by
  cases h with
  | none =>
    obtain ⟨hminus, hplus⟩ := not_sign_of_isDigit hd
    unfold signOf
    split <;> simp_all
  | plus => rfl
  | minus => rfl

theorem exists_isSign (s : List Char) :
    ∃ sign, IsSign (signOf s).1 sign ∧ s = sign ++ (signOf s).2 := by
  unfold signOf
  split
  · exact ⟨_, .minus, rfl⟩
  · exact ⟨_, .plus, rfl⟩
  · exact ⟨_, .none, rfl⟩

/-- A fraction is read exactly if a point stands here. -/
theorem fractionPart_cases {fraction : Option (List Char)}
    (h : fractionPart s = .ok (fraction, r)) :
    (fraction.isSome = true ∧ s.head? = some '.') ∨
      (fraction = none ∧ r = s ∧ s.head? ≠ some '.') := by
  unfold fractionPart at h
  split at h
  · split at h
    · obtain ⟨ds, r', -, h⟩ := Step.next_eq_ok.1 h
      cases h
      exact .inl ⟨rfl, rfl⟩
    · cases h
      exact .inl ⟨rfl, rfl⟩
  · rename_i hpoint
    cases h
    refine .inr ⟨rfl, rfl, fun hhead => ?_⟩
    obtain ⟨s', rfl⟩ := List.head?_eq_some_iff.1 hhead
    exact hpoint s' rfl

/-- An exponent is read exactly if one starts here. -/
theorem exponentPart_cases {exponent : Option Int} (h : exponentPart s = .ok (exponent, r)) :
    (exponent.isSome = true ∧ StartsExponent s) ∨
      (exponent = none ∧ r = s ∧ ¬ StartsExponent s) := by
  unfold exponentPart at h
  split at h
  · rename_i mark s
    split at h
    · rename_i hmark
      simp only at h
      split at h
      · rename_i hdigit
        obtain ⟨ds, r', -, h⟩ := Step.next_eq_ok.1 h
        cases h
        obtain ⟨d, hd, hdigit⟩ := (Option.any_eq_true _ _).1 hdigit
        obtain ⟨s', hs'⟩ := List.head?_eq_some_iff.1 hd
        obtain ⟨sign, hsign, happend⟩ := exists_isSign s
        rw [hs'] at happend
        exact .inl ⟨rfl, mark, _, sign, d, s', by rw [happend], hmark, hsign, hdigit⟩
      · cases h
    · rename_i hmark
      cases h
      refine .inr ⟨rfl, rfl, ?_⟩
      rintro ⟨mark', _, sign, d, s', hs, hmark', _, _⟩
      cases hs
      exact hmark hmark'
  · cases h
    refine .inr ⟨rfl, rfl, ?_⟩
    rintro ⟨mark, _, sign, d, s', hs, _⟩
    cases hs

theorem fractionPart_of_not_continues (hs : ∀ c ∈ s.head?, continuesNumber c = false) :
    fractionPart s = .ok (none, s) := by
  unfold fractionPart
  split
  · have hpoint := hs '.' rfl
    simp [continuesNumber] at hpoint
  · rfl

theorem exponentPart_of_not_continues (hs : ∀ c ∈ s.head?, continuesNumber c = false) :
    exponentPart s = .ok (none, s) := by
  unfold exponentPart
  split
  · rename_i mark s
    have hmark : ¬ (mark = 'e' ∨ mark = 'E') := by
      rintro (rfl | rfl)
      · exact absurd (hs 'e' rfl) (by decide)
      · exact absurd (hs 'E' rfl) (by decide)
    rw [if_neg hmark]
  · rfl

theorem fractionPart_of_isFraction {f : List Char} (h : IsFraction f) (hs : IsExponent s) :
    ∃ fraction, fractionPart (f ++ s) = .ok (fraction, s) ∧ (fraction.isSome = false → f = []) := by
  have hhead : ∀ c ∈ s.head?, inRun Char.isDigit c = false ∧ c ≠ '.' := by
    cases hs with
    | none => simp
    | some hmark _ _ _ =>
      intro c hc
      cases hc
      rcases hmark with rfl | rfl <;> decide
  cases h with
  | none =>
    refine ⟨none, ?_, fun _ => rfl⟩
    unfold fractionPart
    split
    · rename_i hpoint
      exact absurd rfl (hhead '.' (by rw [← List.nil_append s, hpoint]; rfl)).2
    · rfl
  | @some run ds hrun =>
    refine ⟨some ds, ?_, fun h => by cases h⟩
    have hds := hrun.digitRun_eq (by decide) fun c hc => (hhead c hc).1
    rw [List.cons_append, fractionPart]
    by_cases hne : ds = []
    · obtain rfl := hrun.eq_nil_iff.1 hne
      have hdigit : s.head?.any Char.isDigit = false := by
        rw [Option.any_eq_false]
        exact fun c hc => by simpa using (Bool.or_eq_false_iff.1 (hhead c hc).1).1
      rw [List.nil_append, hdigit, hne]
      rfl
    · obtain ⟨d, run', rfl, hd⟩ := hrun.head_isDigit hne
      rw [if_pos (by simpa using hd), hds]
      rfl

theorem exponentPart_of_isExponent (h : IsExponent s) :
    ∃ exponent, exponentPart s = .ok (exponent, []) ∧ (exponent.isSome = false → s = []) := by
  cases h with
  | none => exact ⟨none, rfl, fun _ => rfl⟩
  | @some mark negative sign run ds hmark hsign hrun hne =>
    obtain ⟨d, run', rfl, hd⟩ := hrun.head_isDigit hne
    have hds := hrun.digitRun_eq (r := []) (by decide) (by simp)
    rw [List.append_nil] at hds
    rw [exponentPart, if_pos hmark, signOf_sign hsign hd]
    simp [hd, hds, Step.next]

end

/-! ## The number of a text -/

namespace NumberText

section
variable [Payloads]

variable {t : NumberText} {ds r : List Char} {v : Value}

theorem openNumber_of_marked (hb : t.base ≠ 10) :
    openNumber t.negative t.body = basedInt t.negative t.body t.base (t.run ++ t.rest) := by
  have hbased : based? t.body = some (t.base, t.run ++ t.rest) := by
    rw [body]
    generalize t.run ++ t.rest = s
    have hmark := t.isMark
    revert hb hmark
    generalize t.base = base
    generalize t.mark = mark
    rintro hb (_ | (rfl | rfl) | (rfl | rfl) | (rfl | rfl))
    · exact absurd rfl hb
    all_goals rfl
  rw [openNumber, hbased]

omit [Payloads] in
theorem body_of_decimal (hb : t.base = 10) : t.body = t.run ++ t.rest := by
  have hmark := t.isMark
  rw [hb] at hmark
  rw [body]
  generalize t.mark = mark at hmark
  cases hmark
  rfl

omit [Payloads] in
/-- In base ten no mark follows a zero at the start. -/
theorem baseOfMark?_of_decimal (hb : t.base = 10) {c : Char}
    (hs : t.run ++ t.rest = '0' :: c :: r) : baseOfMark? c = none := by
  match hrun : t.run with
  | [] => exact absurd hrun (t.starts hb)
  | [a] =>
    rw [hrun, List.singleton_append, List.cons.injEq] at hs
    have hnone := t.unmarked hb (by rw [hrun, hs.1])
    rwa [hs.2] at hnone
  | a :: b :: run =>
    rw [hrun, List.cons_append, List.cons_append, List.cons.injEq, List.cons.injEq] at hs
    have hc := List.all_eq_true.1 t.isRun b (by rw [hrun]; simp)
    rw [hs.2.1, inRun, hb, isDigitOf_ten, Bool.or_eq_true, beq_iff_eq] at hc
    rcases hc with hc | rfl
    · exact baseOfMark?_of_isDigit hc
    · rfl

theorem openNumber_of_decimal (hb : t.base = 10) :
    openNumber t.negative t.body = decimalNumber t.negative t.body := by
  have hbased : based? t.body = none := by
    rw [body_of_decimal hb]
    unfold based?
    split
    · rename_i hs
      rw [baseOfMark?_of_decimal hb hs]
      rfl
    · rfl
  rw [openNumber, hbased]

omit [Payloads] in
theorem digitRun_eq_ok_iff :
    digitRun (isDigitOf t.base) (t.base != 10) (t.run ++ t.rest) = .ok (ds, r) ↔
      Grouped (isDigitOf t.base) (t.base != 10) t.run ds ∧ r = t.rest :=
  digitRun_run (isDigitOf_pause t.base) (List.all_eq_true.1 t.isRun)
    ((Option.any_eq_false _ _).1 t.ends)

omit [Payloads] in
theorem digitRun_of_decimal (hb : t.base = 10) : digitRun Char.isDigit false t.body =
    digitRun (isDigitOf t.base) (t.base != 10) (t.run ++ t.rest) := by
  rw [body_of_decimal hb, hb, isDigitOf_ten]
  rfl

/-- Digits with a mark are an integer. -/
theorem openNumber_cases_of_marked (hb : t.base ≠ 10)
    (h : openNumber t.negative t.body = .ok (v, r)) : ∃ ds, t.Writes ds ∧ r = t.rest ∧
      ∃ n, v = .int n ∧ signedInt? t.negative (ofDigits t.base ds) = some n := by
  rw [openNumber_of_marked hb] at h
  obtain ⟨ds, r', hrun, h⟩ := Step.next_eq_ok.1 h
  rw [← bne_iff_ne.2 hb, digitRun_eq_ok_iff] at hrun
  obtain ⟨hgrouped, rfl⟩ := hrun
  split at h
  · cases h
  · rename_i hne
    exact ⟨ds, ⟨hgrouped, by simpa using hne⟩, intValue_eq_ok_iff.1 h⟩

/-- Digits in base ten are an integer without zeros that say nothing, if no fraction and no exponent
starts behind them, and else a float. -/
theorem openNumber_cases_of_decimal (hb : t.base = 10)
    (h : openNumber t.negative t.body = .ok (v, r)) : ∃ ds, t.Writes ds ∧
      ((r = t.rest ∧ hasLeadingZeros ds = false ∧ ¬ StartsFloat t.rest ∧
          ∃ n, v = .int n ∧ signedInt? t.negative (ofDigits t.base ds) = some n) ∨
        StartsFloat t.rest ∧ ∃ x, v = .float x) := by
  rw [openNumber_of_decimal hb] at h
  obtain ⟨ds, r₁, hrun, h⟩ := Step.next_eq_ok.1 h
  rw [digitRun_of_decimal hb, digitRun_eq_ok_iff] at hrun
  obtain ⟨hgrouped, rfl⟩ := hrun
  obtain ⟨fraction, r₁, hfraction, h⟩ := Step.next_eq_ok.1 h
  refine ⟨ds, ⟨hgrouped, mt hgrouped.eq_nil_iff.1 (t.starts hb)⟩, ?_⟩
  rcases fractionPart_cases hfraction with ⟨hsome, hpoint⟩ | ⟨rfl, rfl, hpoint⟩
  · obtain ⟨exponent, r₂, -, h⟩ := Step.next_eq_ok.1 h
    rw [hsome, Bool.true_or, if_pos rfl] at h
    cases h
    exact .inr ⟨.inl hpoint, _, rfl⟩
  obtain ⟨exponent, r₂, hexponent, h⟩ := Step.next_eq_ok.1 h
  rcases exponentPart_cases hexponent with ⟨hsome, hstarts⟩ | ⟨rfl, rfl, hstarts⟩
  · rw [hsome, Bool.or_true, if_pos rfl] at h
    cases h
    exact .inr ⟨.inr hstarts, _, rfl⟩
  split at h
  · rename_i hsome
    cases hsome
  split at h
  · cases h
  rename_i hzeros
  rw [← hb, intValue_eq_ok_iff] at h
  exact .inl ⟨h.1, by simpa using hzeros, by rintro (h | h) <;> contradiction, h.2⟩

/-- A number that is read has a grouped run, and it is an integer that fits, no fraction, no
exponent and nothing else that belongs to a number being behind it, or a float in base ten with a
fraction or an exponent. -/
theorem number_cases (h : number t.negative t.body = .ok (v, r)) : ∃ ds, t.Writes ds ∧
    ((∃ n, v = .int n ∧ signedInt? t.negative (ofDigits t.base ds) = some n ∧
        (t.base = 10 → hasLeadingZeros ds = false ∧ ¬ StartsFloat t.rest) ∧
        ∀ c ∈ t.rest.head?, continuesNumber c = false) ∨
      t.base = 10 ∧ StartsFloat t.rest ∧ ∃ x, v = .float x) := by
  obtain ⟨v', r', hopen, h⟩ := Step.next_eq_ok.1 h
  split at h
  · cases h
  rename_i hend
  cases h
  have hend : ∀ c ∈ r.head?, continuesNumber c = false := by
    simpa [Option.any_eq_false] using hend
  by_cases hb : t.base = 10
  · obtain ⟨ds, hds, ⟨rfl, hzeros, hfloat, n, rfl, hn⟩ | hfloat⟩ :=
      openNumber_cases_of_decimal hb hopen
    · exact ⟨ds, hds, .inl ⟨n, rfl, hn, fun _ => ⟨hzeros, hfloat⟩, hend⟩⟩
    · exact ⟨ds, hds, .inr ⟨hb, hfloat⟩⟩
  · obtain ⟨ds, hds, rfl, n, rfl, hn⟩ := openNumber_cases_of_marked hb hopen
    exact ⟨ds, hds, .inl ⟨n, rfl, hn, fun h => absurd h hb, hend⟩⟩

/-- Digits without zeros that say nothing in base ten are an integer, or too large at the first
digit, if nothing behind them belongs to a number. -/
theorem number_of_writes (hw : t.Writes ds) (hend : ∀ c ∈ t.rest.head?, continuesNumber c = false)
    (hzeros : t.base = 10 → hasLeadingZeros ds = false) :
    number t.negative t.body = intValue t.negative t.base t.body ds t.rest := by
  have hrun := digitRun_eq_ok_iff.2 ⟨hw.1, rfl⟩
  have hopen : openNumber t.negative t.body =
      intValue t.negative t.base t.body ds t.rest := by
    by_cases hb : t.base = 10
    · rw [← digitRun_of_decimal hb] at hrun
      rw [openNumber_of_decimal hb, decimalNumber, hrun, hb]
      simp [Step.next, fractionPart_of_not_continues hend, exponentPart_of_not_continues hend,
        hzeros hb]
    · rw [bne_iff_ne.2 hb] at hrun
      rw [openNumber_of_marked hb, basedInt, hrun]
      simp [Step.next, hw.2]
  have hrest : t.rest.head?.any continuesNumber = false := by
    rw [Option.any_eq_false]
    exact fun c hc => by simpa using hend c hc
  rw [number, hopen]
  unfold intValue
  split
  · simp [Step.next, hrest]
  · rfl

/-- Digits in base ten and behind them a fraction, an exponent or both are a float. -/
theorem number_of_float (hw : t.Writes ds) (hb : t.base = 10) {f e : List Char} (hf : IsFraction f)
    (he : IsExponent e) (hrest : t.rest = f ++ e) (hne : t.rest ≠ []) :
    ∃ x, number t.negative t.body = .ok (.float x, []) := by
  have hrun := digitRun_eq_ok_iff.2 ⟨hw.1, rfl⟩
  rw [← digitRun_of_decimal hb, hrest] at hrun
  obtain ⟨fraction, hfraction, hnone⟩ := fractionPart_of_isFraction hf he
  obtain ⟨exponent, hexponent, hnone'⟩ := exponentPart_of_isExponent he
  have hfloat : (fraction.isSome || exponent.isSome) = true := by
    refine Bool.not_eq_false _ ▸ fun h => ?_
    rw [Bool.or_eq_false_iff] at h
    exact hne (by rw [hrest, hnone h.1, hnone' h.2]; rfl)
  rw [number, openNumber_of_decimal hb, decimalNumber, hrun]
  simp only [Step.next, hfraction, hexponent, hfloat, if_true]
  exact ⟨_, rfl⟩

end

end NumberText

end TypedSettings.Literal
