import TypedSettings.Literal.Parser
import TypedSettings.Proofs.Literal.DigitGroups

/-!
# Tokens of literals

What stands between two tokens of a literal, as a relation, and what is known of number and text
tokens without looking inside: the characters after a token are a suffix of those before it
(`number_suffix`, `text_suffix`), and a text token starts as texts start (`startsText_of_text`).
-/

namespace TypedSettings.Literal

open Text

/-! ## Trivia -/

/-- The characters before the second are a run of blanks and comments. A comment reaches to the next
newline or to the end of the input. -/
inductive Trivia : List Char → List Char → Prop where
  | done (s : List Char) : Trivia s s
  | blank {c : Char} {s r : List Char} : isBlank c = true → Trivia s r → Trivia (c :: s) r
  | comment {body s r : List Char} : (∀ c ∈ body, c ≠ '\n') → (∀ c ∈ s.head?, c = '\n') →
      Trivia s r → Trivia ('#' :: (body ++ s)) r

/-- Whether the input ends here or goes on with a character that is no trivia. -/
def NoTrivia (s : List Char) : Prop := ∀ c ∈ s.head?, isBlank c = false ∧ c ≠ '#'

theorem Trivia.trans {s t r : List Char} (hs : Trivia s t) (ht : Trivia t r) : Trivia s r := by
  induction hs with
  | done => exact ht
  | blank hc _ ih => exact .blank hc (ih ht)
  | comment hb hn _ ih => exact .comment hb hn (ih ht)

theorem Trivia.suffix {s r : List Char} (h : Trivia s r) : r <:+ s := by
  induction h with
  | done => exact List.suffix_rfl
  | blank _ _ ih => exact ih.trans (List.suffix_cons ..)
  | comment _ _ _ ih =>
    exact ih.trans ((List.suffix_append ..).trans (List.suffix_cons ..))

mutual

theorem trivia_dropTrivia : ∀ s, Trivia s (dropTrivia s)
  | [] => .done []
  | c :: r => by
    simp only [dropTrivia]
    split
    · exact .blank ‹_› (trivia_dropTrivia r)
    · split
      · rename_i hc
        obtain ⟨body, s, hr, hb, hn, ht⟩ := trivia_dropComment r
        generalize dropComment r = t at ht
        rw [hc, hr]
        exact .comment hb hn ht
      · exact .done _

/-- What is left of a comment is its body, and the trivia after it. -/
theorem trivia_dropComment : ∀ r, ∃ body s, r = body ++ s ∧ (∀ c ∈ body, c ≠ '\n') ∧
    (∀ c ∈ s.head?, c = '\n') ∧ Trivia s (dropComment r)
  | [] => ⟨[], [], rfl, by simp, by simp, .done []⟩
  | c :: r => by
    simp only [dropComment]
    split
    · rename_i hc
      exact ⟨[], c :: r, rfl, by simp, by simp [hc], .blank (hc ▸ by decide) (trivia_dropTrivia r)⟩
    · rename_i hc
      obtain ⟨body, s, hr, hb, hn, ht⟩ := trivia_dropComment r
      exact ⟨c :: body, s, by simp [hr], by simpa [hc] using hb, hn, ht⟩

end

theorem dropComment_append {body s : List Char} (hb : ∀ c ∈ body, c ≠ '\n')
    (hn : ∀ c ∈ s.head?, c = '\n') : dropComment (body ++ s) = dropTrivia s := by
  induction body with
  | nil =>
    cases s with
    | nil => rfl
    | cons c s =>
      have hc : c = '\n' := hn c rfl
      subst hc
      simp [dropComment, dropTrivia, show isBlank '\n' = true by decide]
  | cons c body ih =>
    have hc := hb c (by simp)
    simp only [List.cons_append, dropComment, hc, if_false]
    exact ih fun x hx => hb x (by simp [hx])

/-- Trivia does not change where the trivia ends. -/
theorem Trivia.dropTrivia_eq {s r : List Char} (h : Trivia s r) : dropTrivia s = dropTrivia r := by
  induction h with
  | done => rfl
  | blank hc _ ih => simp [dropTrivia, hc, ih]
  | comment hb hn _ ih =>
    rw [dropTrivia, if_neg (by decide), if_pos rfl, dropComment_append hb hn, ih]

theorem dropTrivia_of_noTrivia {s : List Char} (h : NoTrivia s) : dropTrivia s = s := by
  cases s with
  | nil => rfl
  | cons c s =>
    obtain ⟨hb, hc⟩ := h c rfl
    simp [dropTrivia, hb, hc]

theorem noTrivia_cons {c : Char} {s : List Char} (hb : isBlank c = false) (hc : c ≠ '#') :
    NoTrivia (c :: s) := by
  intro d hd
  cases hd
  exact ⟨hb, hc⟩

theorem Trivia.eq_dropTrivia {s r : List Char} (h : Trivia s r) (hr : NoTrivia r) :
    dropTrivia s = r := by
  rw [h.dropTrivia_eq, dropTrivia_of_noTrivia hr]

theorem trivia_blanks {blanks : List Char} (h : ∀ c ∈ blanks, isBlank c = true) (s : List Char) :
    Trivia (blanks ++ s) s := by
  induction blanks with
  | nil => exact .done s
  | cons c blanks ih =>
    obtain ⟨hc, hblanks⟩ := List.forall_mem_cons.1 h
    exact .blank hc (ih hblanks)

theorem dropTrivia_blanks {blanks s : List Char} (h : ∀ c ∈ blanks, isBlank c = true) :
    dropTrivia (blanks ++ s) = dropTrivia s := (trivia_blanks h s).dropTrivia_eq

/-! ## Number tokens -/

section
variable {negative : Bool} {s r : List Char}

theorem digitRun_suffix {isDigit : Char → Bool} {mayPause : Bool} {ds : List Char}
    (h : digitRun isDigit mayPause s = .ok (ds, r)) : r <:+ s := by
  obtain ⟨run, rfl, -⟩ := exists_run_of_digitRun h
  exact List.suffix_append ..

theorem fractionPart_suffix {fraction : Option (List Char)}
    (h : fractionPart s = .ok (fraction, r)) : r <:+ s := by
  unfold fractionPart at h
  split at h
  · split at h
    · obtain ⟨ds, r', hd, h⟩ := Step.next_eq_ok.1 h
      cases h
      exact (digitRun_suffix hd).trans (List.suffix_cons ..)
    · cases h
      exact List.suffix_cons ..
  · cases h
    exact List.suffix_rfl

theorem signOf_suffix (s : List Char) : (signOf s).2 <:+ s := by
  unfold signOf
  split
  · exact List.suffix_cons ..
  · exact List.suffix_cons ..
  · exact List.suffix_rfl

theorem exponentPart_suffix {exponent : Option Int}
    (h : exponentPart s = .ok (exponent, r)) : r <:+ s := by
  unfold exponentPart at h
  split at h
  · split at h
    · simp only at h
      split at h
      · obtain ⟨ds, r', hd, h⟩ := Step.next_eq_ok.1 h
        cases h
        exact (digitRun_suffix hd).trans ((signOf_suffix _).trans (List.suffix_cons ..))
      · cases h
    · cases h
      exact List.suffix_rfl
  · cases h
    exact List.suffix_rfl

theorem based?_suffix {base : Nat} {ds : List Char} (h : based? s = some (base, ds)) : ds <:+ s := by
  unfold based? at h
  split at h
  · obtain ⟨_, _, h⟩ := Option.map_eq_some_iff.1 h
    cases h
    exact (List.suffix_cons ..).trans (List.suffix_cons ..)
  · cases h

variable [Payloads]

/-- Digits that fit are their integer, and what follows them is left. -/
theorem intValue_eq_ok_iff {base : Nat} {start ds : List Char} {v : Value} :
    intValue negative base start ds s = .ok (v, r) ↔
      r = s ∧ ∃ n, v = .int n ∧ signedInt? negative (ofDigits base ds) = some n := by
  unfold intValue
  split
  · rename_i n hn
    constructor
    · intro h
      cases h
      exact ⟨rfl, n, rfl, hn⟩
    · rintro ⟨rfl, m, rfl, hm⟩
      rw [hn] at hm
      cases hm
      rfl
  · rename_i hn
    simp [hn]

theorem basedInt_suffix {start : List Char} {base : Nat} {v : Value}
    (h : basedInt negative start base s = .ok (v, r)) : r <:+ s := by
  obtain ⟨ds, r', hd, h⟩ := Step.next_eq_ok.1 h
  split at h
  · cases h
  · rw [(intValue_eq_ok_iff.1 h).1]
    exact digitRun_suffix hd

theorem decimalNumber_suffix {v : Value} (h : decimalNumber negative s = .ok (v, r)) : r <:+ s := by
  obtain ⟨whole, r₁, hw, h⟩ := Step.next_eq_ok.1 h
  obtain ⟨fraction, r₂, hf, h⟩ := Step.next_eq_ok.1 h
  obtain ⟨exponent, r₃, he, h⟩ := Step.next_eq_ok.1 h
  have hr : r₃ <:+ s :=
    (exponentPart_suffix he).trans ((fractionPart_suffix hf).trans (digitRun_suffix hw))
  split at h
  · cases h
    exact hr
  · split at h
    · cases h
    · rw [(intValue_eq_ok_iff.1 h).1]
      exact hr

theorem openNumber_suffix {v : Value} (h : openNumber negative s = .ok (v, r)) : r <:+ s := by
  unfold openNumber at h
  split at h
  · rename_i hb
    exact (basedInt_suffix h).trans (based?_suffix hb)
  · exact decimalNumber_suffix h

theorem number_suffix {v : Value} (h : number negative s = .ok (v, r)) : r <:+ s := by
  obtain ⟨v', r', ho, h⟩ := Step.next_eq_ok.1 h
  split at h
  · cases h
  · cases h
    exact openNumber_suffix ho

end

/-! ## Text tokens -/

section
variable {s r : List Char}

theorem isDigitOf_mono {base base' : Nat} {c : Char} (hle : base ≤ base')
    (h : isDigitOf base c = true) : isDigitOf base' c = true := by
  obtain ⟨n, hn, hlt⟩ := (Option.any_eq_true _ _).1 h
  refine (Option.any_eq_true _ _).2 ⟨n, hn, ?_⟩
  simp only [decide_eq_true_eq] at hlt ⊢
  omega

theorem exists_run_of_hexDigits {width n m : Nat} (h : hexDigits width n s = .ok (m, r)) :
    ∃ run, s = run ++ r ∧ ∀ c ∈ run, isDigitOf 16 c = true := by
  induction width generalizing n s with
  | zero =>
    cases h
    exact ⟨[], rfl, List.forall_mem_nil _⟩
  | succ width ih =>
    cases s with
    | nil => cases h
    | cons c s =>
      rw [hexDigits] at h
      split at h
      · obtain ⟨run, rfl, hrun⟩ := ih h
        exact ⟨c :: run, rfl, List.forall_mem_cons.2 ⟨‹_›, hrun⟩⟩
      · cases h

theorem exists_run_of_octalDigits (width n : Nat) (s : List Char) :
    ∃ run, s = run ++ (octalDigits width n s).2 ∧ ∀ c ∈ run, isDigitOf 16 c = true := by
  induction width generalizing n s with
  | zero => exact ⟨[], rfl, List.forall_mem_nil _⟩
  | succ width ih =>
    cases s with
    | nil => exact ⟨[], rfl, List.forall_mem_nil _⟩
    | cons c s =>
      rw [octalDigits]
      split
      · rename_i hc
        obtain ⟨run, hs, hrun⟩ := ih (n * 8 + ofDigits 8 [c]) s
        exact ⟨c :: run, congrArg (c :: ·) hs,
          List.forall_mem_cons.2 ⟨isDigitOf_mono (by decide) hc, hrun⟩⟩
      · exact ⟨[], rfl, List.forall_mem_nil _⟩

theorem charOf_rest {n : Nat} {cs : List Char} (h : charOf n s = .ok (cs, r)) : r = s := by
  unfold charOf at h
  split at h
  · cases h
    rfl
  · cases h

/-- An escape goes on with digits only. -/
theorem exists_run_of_escape {c : Char} {cs : List Char} (h : escape c s = .ok (cs, r)) :
    ∃ run, s = run ++ r ∧ ∀ c ∈ run, isDigitOf 16 c = true := by
  unfold escape at h
  split at h
  · cases h
    exact ⟨[], rfl, List.forall_mem_nil _⟩
  · split at h
    · simp only at h
      rw [charOf_rest h]
      exact exists_run_of_octalDigits ..
    · split at h
      · obtain ⟨n, r', hx, h⟩ := Step.next_eq_ok.1 h
        rw [charOf_rest h]
        exact exists_run_of_hexDigits hx
      · cases h
        exact ⟨[], rfl, List.forall_mem_nil _⟩

theorem TextStyle.exists_run_of_escape {style : TextStyle} {c : Char} {cs : List Char}
    (h : style.escape c s = .ok (cs, r)) :
    ∃ run, s = run ++ r ∧ ∀ c ∈ run, isDigitOf 16 c = true := by
  unfold TextStyle.escape at h
  split at h
  · cases h
    exact ⟨[], rfl, List.forall_mem_nil _⟩
  · exact Literal.exists_run_of_escape h

theorem dropStart?_suffix {start : List Char} (h : dropStart? start s = some r) : r <:+ s := by
  induction start generalizing s with
  | nil =>
    cases h
    exact List.suffix_rfl
  | cons x xs ih =>
    cases s with
    | nil => cases h
    | cons c s =>
      rw [dropStart?] at h
      split at h
      · exact (ih h).trans (List.suffix_cons ..)
      · cases h

theorem textBody_suffix {style : TextStyle} {start cs : List Char} {fuel : Nat}
    (h : textBody style start fuel s = .ok (cs, r)) : r <:+ s := by
  induction fuel generalizing s cs with
  | zero => cases h
  | succ fuel ih =>
    rw [textBody.eq_def] at h
    simp only at h
    split at h
    · rename_i hd
      cases h
      exact dropStart?_suffix hd
    · cases h
    · cases h
    · obtain ⟨piece, r₁, he, h⟩ := Step.next_eq_ok.1 h
      obtain ⟨rest, r₂, hb, h⟩ := Step.next_eq_ok.1 h
      cases h
      obtain ⟨run, rfl, -⟩ := TextStyle.exists_run_of_escape he
      exact (ih hb).trans ((List.suffix_append ..).trans
        ((List.suffix_cons ..).trans (List.suffix_cons ..)))
    · split at h
      · cases h
      · obtain ⟨rest, r₁, hb, h⟩ := Step.next_eq_ok.1 h
        cases h
        exact (ih hb).trans (List.suffix_cons ..)

/-- What a text token starts with: a quote, or a mark and a quote. -/
theorem text_cases {cs : List Char} (h : text s = .ok (cs, r)) :
    (∃ q t, s = q :: t ∧ isQuote q = true ∧ r <:+ t) ∨
    ∃ m q t, s = m :: q :: t ∧ isTextMark m = true ∧ isQuote q = true ∧ r <:+ t := by
  have body : ∀ (style : TextStyle) (t : List Char) (fuel : Nat),
      textBody style s fuel (if style.triple then t.drop 2 else t) = .ok (cs, r) → r <:+ t := by
    intro style t fuel hb
    refine (textBody_suffix hb).trans ?_
    split
    · exact List.drop_suffix ..
    · exact List.suffix_rfl
  unfold text at h
  split at h
  · rename_i raw q t hm
    split at h
    · rename_i hq
      have hr : r <:+ t := body ⟨q, opensTriple q t, raw⟩ t _ h
      cases s with
      | nil => cases hm
      | cons c s =>
        rw [textMark] at hm
        split at hm
        · rename_i hc
          cases hm
          exact Or.inr ⟨c, q, t, rfl, hc, hq, hr⟩
        · cases hm
          exact Or.inl ⟨q, t, rfl, hq, hr⟩
    · cases h
  · cases h

/-- Where a text starts a quote stands, or a mark and a quote. -/
theorem startsText_cases (h : startsText s = true) : (∃ q t, s = q :: t ∧ isQuote q = true) ∨
    ∃ m q t, s = m :: q :: t ∧ isTextMark m = true ∧ isQuote q = true := by
  unfold startsText at h
  split at h
  · rename_i c q t
    rw [Bool.or_eq_true, Bool.and_eq_true] at h
    rcases h with hc | ⟨hm, hq⟩
    · exact .inl ⟨c, q :: t, rfl, hc⟩
    · exact .inr ⟨c, q, t, rfl, hm, hq⟩
  · exact .inl ⟨_, _, rfl, h⟩
  · cases h

theorem startsText_of_text {cs : List Char} (h : text s = .ok (cs, r)) : startsText s = true := by
  rcases text_cases h with ⟨q, t, rfl, hq, _⟩ | ⟨m, q, t, rfl, hm, hq, _⟩
  · cases t <;> simp [startsText, hq]
  · simp [startsText, hm, hq]

theorem text_suffix {cs : List Char} (h : text s = .ok (cs, r)) : r <:+ s := by
  rcases text_cases h with ⟨q, t, rfl, _, hr⟩ | ⟨m, q, t, rfl, _, _, hr⟩
  · exact hr.trans (List.suffix_cons ..)
  · exact hr.trans ((List.suffix_cons ..).trans (List.suffix_cons ..))

/-- A text token is not empty. -/
theorem length_lt_of_text {cs : List Char} (h : text s = .ok (cs, r)) : r.length < s.length := by
  rcases text_cases h with ⟨q, t, rfl, _, hr⟩ | ⟨m, q, t, rfl, _, _, hr⟩
  · exact Nat.lt_succ_of_le hr.length_le
  · exact Nat.lt_succ_of_le (Nat.le_succ_of_le hr.length_le)

end

end TypedSettings.Literal
