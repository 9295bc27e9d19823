import TypedSettings.Proofs.Literal.Pieces
import TypedSettings.Proofs.Number.Parts

/-!
# Scalars as they are written

Where the input ends or a delimiter stands, the printed form of a scalar is a form of the grammar
and writes the scalar: an integer (`form_int`), a finite float whose text reads back (`form_float`)
and a text (`form_str`).
-/

namespace TypedSettings.Literal

open Text Number Value

/-- Whether the input ends right here or a delimiter stands right here. -/
def Ends (r : List Char) : Prop := ∀ c ∈ r.head?, isDelimiter c = true

theorem ends_cons {c : Char} {r : List Char} (h : isDelimiter c = true) : Ends (c :: r) := by
  intro d hd
  cases hd
  exact h

/-- A delimiter belongs to no number and to no name. -/
theorem not_continues_of_isDelimiter {c : Char} (h : isDelimiter c = true) :
    c.isDigit = false ∧ c ≠ '_' ∧ c ≠ '.' ∧ c ≠ 'e' ∧ c ≠ 'E' ∧ baseOfMark? c = none ∧
      isWordChar c = false ∧ isQuote c = false := by
  simp only [isDelimiter, Bool.or_eq_true, beq_iff_eq] at h
  rcases h with (((rfl | rfl) | rfl) | rfl) | rfl <;> decide

/-! ## Numbers -/

section
variable {negative : Bool} {ds r : List Char}

/-- A run of digits without underscores. -/
theorem digitRun_digits (mayPause : Bool) (hd : ∀ c ∈ ds, c.isDigit = true)
    (hr : ∀ c ∈ r.head?, c.isDigit = false ∧ c ≠ '_') :
    digitRun Char.isDigit mayPause (ds ++ r) = .ok (ds, r) := by
  refine (grouped_digits mayPause hd).digitRun_eq (by decide) fun c hc => ?_
  obtain ⟨hdigit, hpause⟩ := hr c hc
  simp [inRun, hdigit, hpause]

/-- What may follow the parts of a number in the middle of its text. -/
theorem not_digit_after (p : Parts) (hr : Ends r) :
    ∀ c ∈ (p.exponentChars ++ r).head?, c.isDigit = false ∧ c ≠ '_' ∧ c ≠ '.' := by
  intro c hc
  cases hx : p.exponentChars with
  | nil =>
    rw [hx] at hc
    obtain ⟨h1, h2, h3, _⟩ := not_continues_of_isDelimiter (hr c hc)
    exact ⟨h1, h2, h3⟩
  | cons d ds =>
    obtain rfl : d = 'e' := p.head_exponentChars d (by simp [hx])
    obtain rfl : 'e' = c := by simpa [hx] using hc
    decide

theorem fractionPart_chars (p : Parts) (hr : Ends r) :
    fractionPart (p.fractionChars ++ (p.exponentChars ++ r)) =
      .ok (p.fraction, p.exponentChars ++ r) := by
  have hafter := not_digit_after p hr
  unfold Parts.fractionChars
  cases hf : p.fraction with
  | none =>
    simp only [Option.elim_none, List.nil_append]
    unfold fractionPart
    split
    · rename_i t ht
      exact absurd rfl (hafter '.' (by rw [ht]; rfl)).2.2
    · rfl
  | some ds =>
    have hds := p.fraction_digits ds hf
    have hrun := digitRun_digits false hds fun c hc => ⟨(hafter c hc).1, (hafter c hc).2.1⟩
    simp only [Option.elim_some, List.cons_append, fractionPart]
    cases hd : ds with
    | nil =>
      have hhead : (p.exponentChars ++ r).head?.any Char.isDigit = false := by
        cases hc : (p.exponentChars ++ r).head? with
        | none => rfl
        | some c => exact (hafter c hc).1
      rw [List.nil_append, hhead]
      rfl
    | cons d ds' =>
      have hdigit : d.isDigit = true := hds d (by simp [hd])
      rw [hd] at hrun
      rw [if_pos (by simpa using hdigit), hrun]
      rfl

theorem signOf_ofInt (n : Int) (r : List Char) :
    signOf (ofInt n ++ r) = (decide (n < 0), decimalDigits n.natAbs ++ r) := by
  by_cases hn : n < 0
  · simp [ofInt, hn, signOf]
  · obtain ⟨d, ds, hds⟩ := List.exists_cons_of_ne_nil (decimalDigits_ne_nil n.natAbs)
    have hd := not_sign_of_isDigit (c := d) (isDigit_of_mem_decimalDigits (by rw [hds]; simp))
    simp only [ofInt, hn, if_false, hds, List.cons_append, decide_false]
    unfold signOf
    split <;> simp_all

theorem exponentPart_chars (p : Parts) (hr : Ends r) :
    exponentPart (p.exponentChars ++ r) = .ok (p.exponent, r) := by
  unfold Parts.exponentChars
  cases p.exponent with
  | none =>
    cases r with
    | nil => rfl
    | cons c r =>
      obtain ⟨_, _, _, he, hE, _⟩ := not_continues_of_isDelimiter (hr c rfl)
      simp [exponentPart, he, hE]
  | some n =>
    have hrun : digitRun Char.isDigit false (decimalDigits n.natAbs ++ r) =
        .ok (decimalDigits n.natAbs, r) := by
      refine digitRun_digits false (fun c hc => isDigit_of_mem_decimalDigits hc) fun c hc => ?_
      obtain ⟨h1, h2, _⟩ := not_continues_of_isDelimiter (hr c hc)
      exact ⟨h1, h2⟩
    have hhead : (decimalDigits n.natAbs ++ r).head?.any Char.isDigit = true := by
      obtain ⟨d, ds, hds⟩ := List.exists_cons_of_ne_nil (decimalDigits_ne_nil n.natAbs)
      have hd : d.isDigit = true := isDigit_of_mem_decimalDigits (by rw [hds]; simp)
      simp [hds, hd]
    simp only [Option.elim_some, List.cons_append, exponentPart, true_or, if_true, signOf_ofInt,
      hhead, hrun, Step.next, ofDigits_decimalDigits, signed_natAbs]

variable [Payloads]

/-- The parts of a number are read as they are written. -/
theorem decimalNumber_chars (p : Parts) (hr : Ends r) :
    decimalNumber negative (p.chars ++ r) =
      if p.isFloat then .ok (.float (if negative then -p.float else p.float), r)
      else if hasLeadingZeros p.whole then .error ⟨.leadingZeros, p.chars ++ r⟩
      else intValue negative 10 (p.chars ++ r) p.whole r := by
  have hwhole : digitRun Char.isDigit false (p.chars ++ r) =
      .ok (p.whole, p.fractionChars ++ (p.exponentChars ++ r)) := by
    rw [Parts.chars, List.append_assoc, List.append_assoc]
    refine digitRun_digits false p.whole_digits fun c hc => ?_
    cases hf : p.fractionChars with
    | nil =>
      rw [hf] at hc
      exact ⟨(not_digit_after p hr c hc).1, (not_digit_after p hr c hc).2.1⟩
    | cons d ds =>
      obtain rfl : d = c := by simpa [hf] using hc
      have := p.head_after_whole d (by simp [hf])
      rcases this with rfl | rfl <;> decide
  simp only [decimalNumber, hwhole, fractionPart_chars p hr, exponentPart_chars p hr, Step.next]
  rfl

omit [Payloads] in
theorem baseOfMark?_of_isDigit {c : Char} (h : c.isDigit = true) : baseOfMark? c = none := by
  obtain ⟨n, hn, rfl⟩ := exists_digitChar h
  have digits : ∀ n < 10, baseOfMark? n.digitChar = none := by decide
  exact digits n hn

omit [Payloads] in
/-- Parts that start with a digit never look like a number in another base. -/
theorem based?_chars (p : Parts) (hr : Ends r) (hw : p.whole ≠ []) :
    based? (p.chars ++ r) = none := by
  obtain ⟨d, ds, hds⟩ := List.exists_cons_of_ne_nil hw
  have hmark : ∀ c ∈ (ds ++ (p.fractionChars ++ p.exponentChars) ++ r).head?,
      baseOfMark? c = none := by
    intro c hc
    cases ds with
    | cons e es =>
      obtain rfl : e = c := by simpa using hc
      exact baseOfMark?_of_isDigit (p.whole_digits e (by simp [hds]))
    | nil =>
      cases hf : p.fractionChars ++ p.exponentChars with
      | nil =>
        rw [hf] at hc
        exact (not_continues_of_isDelimiter (hr c hc)).2.2.2.2.2.1
      | cons e es =>
        obtain rfl : e = c := by simpa [hf] using hc
        rcases p.head_after_whole e (by simp [hf]) with rfl | rfl <;> rfl
  rw [Parts.chars, hds, List.cons_append, List.cons_append]
  unfold based?
  split
  · rename_i hcons
    obtain ⟨_, htail⟩ := List.cons.inj hcons
    rw [hmark _ (by rw [htail]; rfl)]
    rfl
  · rfl

/-- What is made of the parts of a number is a number token up to a delimiter. -/
theorem numberToken_chars (p : Parts) (hr : Ends r) (hw : p.whole ≠ []) {v : Value}
    (h : decimalNumber negative (p.chars ++ r) = .ok (v, r)) :
    NumberToken negative (p.chars ++ r) v r := by
  constructor
  · obtain ⟨d, ds, hds⟩ := List.exists_cons_of_ne_nil hw
    have hd : d.isDigit = true := p.whole_digits d (by simp [hds])
    have hne : d ≠ '.' := by
      rintro rfl
      cases hd
    rw [Parts.chars, hds, List.cons_append, List.cons_append, startsNumber]
    · exact hd
    · exact fun _ _ hc _ => absurd hc hne
  · have hend : r.head?.any continuesNumber = false := by
      cases hc : r.head? with
      | none => rfl
      | some c =>
        obtain ⟨_, _, hdot, _, _, _, hword, _⟩ := not_continues_of_isDelimiter (hr c hc)
        simp [continuesNumber, hdot, hword]
    simp [number, openNumber, based?_chars p hr hw, h, Step.next, hend]

end

section
variable [Payloads]

variable {item : Writes Value} {r : List Char}

omit [Payloads] in
theorem signedInt?_toInt (n : Int64) :
    signedInt? (decide (n.toInt < 0)) n.toInt.natAbs = some n := by
  simp only [signedInt?, signed_natAbs]
  rw [if_pos ⟨n.minValue_le_toInt, n.toInt_le⟩, Int64.ofInt_toInt]

omit [Payloads] in
theorem hasLeadingZeros_decimalDigits (n : Nat) :
    hasLeadingZeros (decimalDigits n) = false := by
  by_cases hn : n = 0
  · rw [hn]
    rfl
  · have hhead : ((decimalDigits n).head? == some '0') = false :=
      beq_false_of_ne fun h => hn (decimalDigits_head h)
    rw [hasLeadingZeros, hhead, Bool.and_false, Bool.false_and]

/-- The printed form of an integer writes the integer. -/
theorem form_int (n : Int64) (hr : Ends r) : Form item ((int n).chars ++ r) (.int n) r := by
  let p : Parts := ⟨decimalDigits n.toInt.natAbs, none, none,
    fun c hc => isDigit_of_mem_decimalDigits hc, by simp⟩
  have hchars : p.chars = decimalDigits n.toInt.natAbs := by
    simp [p, Parts.chars, Parts.fractionChars, Parts.exponentChars]
  have hnumber : NumberToken (decide (n.toInt < 0)) (p.chars ++ r) (.int n) r := by
    refine numberToken_chars p hr (decimalDigits_ne_nil _) ?_
    rw [decimalNumber_chars p hr, if_neg (by simp [p, Parts.isFloat]),
      hasLeadingZeros_decimalDigits, if_neg Bool.false_ne_true, intValue, ofDigits_decimalDigits,
      signedInt?_toInt]
  rw [hchars] at hnumber
  rw [Value.chars, ofInt]
  by_cases hn : n.toInt < 0
  · rw [if_pos hn]
    rw [decide_eq_true hn] at hnumber
    exact .signed (Or.inr rfl) (.done _) hnumber
  · rw [if_neg hn]
    rw [decide_eq_false hn] at hnumber
    exact .number hnumber

/-- The printed form of a finite float whose text reads back writes the float. -/
theorem form_float {x : Float} (hx : isFinite x = true)
    (hread : readFloat (floatLayout.text x) = some x) (hr : Ends r) :
    Form item ((float x).chars ++ r) (.float x) r := by
  obtain ⟨p, hp, hf, hw, hvalue⟩ := exists_parts_of_readFloat rfl hx hread
  have htoken : ∀ negative, NumberToken negative (p.chars ++ r)
      (.float (if negative then -p.float else p.float)) r := fun negative =>
    numberToken_chars p hr hw (by rw [decimalNumber_chars p hr, if_pos hf])
  rw [Value.chars, hp]
  by_cases hs : signBit x = true
  · rw [if_pos hs] at hvalue ⊢
    rw [hvalue]
    exact .signed (Or.inr rfl) (.done _) (htoken true)
  · rw [if_neg hs] at hvalue ⊢
    rw [hvalue]
    exact .number (htoken false)

end

/-! ## Texts -/

theorem quoteFor_cases (s : List Char) : quoteFor s = '\x27' ∨ quoteFor s = '\x22' := by
  unfold quoteFor
  split
  · exact Or.inr rfl
  · exact Or.inl rfl

/-- A control character is the escape with its number. -/
theorem escape_hexEscape {c : Char} (h : c.toNat < 128) (t : List Char) :
    Escape ('x' :: ([(c.toNat / 16).digitChar, (c.toNat % 16).digitChar] ++ t)) [c] t := by
  have hdigit : ∀ n < 16, isDigitOf 16 n.digitChar = true := by decide
  have hvalue : ofDigits 16 [(c.toNat / 16).digitChar, (c.toNat % 16).digitChar] = c.toNat := by
    simp only [ofDigits, List.foldl_cons, List.foldl_nil, digitValue?_digitChar _
      (show c.toNat / 16 < 16 by omega), digitValue?_digitChar _ (show c.toNat % 16 < 16 by omega),
      Option.getD_some]
    omega
  refine .hexadecimal (by decide) ⟨?_, Nat.le_refl 2, fun h => absurd h (by simp)⟩ rfl ?_
  · intro d hd
    simp only [List.mem_cons, List.not_mem_nil, or_false] at hd
    rcases hd with rfl | rfl
    · exact hdigit _ (by omega)
    · exact hdigit _ (by omega)
  · rw [← ofDigits_eq_positional, hvalue]

section
variable {quote : Char} {t : List Char}

/-- One character of a quoted text is a piece that means the character. -/
theorem piece_escapeChar (hq : quote = '\x27' ∨ quote = '\x22') (c : Char) (t : List Char) :
    Piece ⟨quote, false, false⟩ (escapeChar quote c ++ t) [c] t := by
  have hnamed : ∀ {d}, (d, [c]) ∈ namedEscapes →
      Piece ⟨quote, false, false⟩ ('\\' :: d :: t) [c] t :=
    fun h => .escaped rfl (.named h)
  unfold escapeChar
  split
  · rename_i hc
    exact hnamed (by simp [hc, namedEscapes])
  split
  · rename_i hc
    exact hnamed (by simp [hc, namedEscapes])
  split
  · rename_i hc
    exact hnamed (by simp [hc, namedEscapes])
  split
  · rename_i hc
    exact hnamed (by simp [hc, namedEscapes])
  split
  · rename_i hc
    refine hnamed ?_
    rw [hc]
    rcases hq with rfl | rfl <;> decide
  split
  · have hlt : c.toNat < 128 := by omega
    rw [hexEscape]
    simp only [hexDigits_eq (show c.toNat < 256 by omega)]
    exact .escaped rfl (escape_hexEscape hlt t)
  · rename_i hslash hline _ _ hquote _
    refine .plain hslash ?_ fun h => absurd h hline
    rintro ⟨u, hu⟩
    exact hquote (List.cons.inj hu).1.symm

/-- The characters of a quoted text are pieces that mean them. -/
theorem pieces_escapeChars (hq : quote = '\x27' ∨ quote = '\x22') (cs t : List Char) :
    Pieces ⟨quote, false, false⟩ (cs.flatMap (escapeChar quote) ++ t) cs t := by
  induction cs with
  | nil => exact .done t
  | cons c cs ih =>
    rw [List.flatMap_cons, List.append_assoc]
    exact .more (piece_escapeChar hq c _) ih

/-- An escaped character does not start with the quote. -/
theorem exists_cons_escapeChar (hq : quote = '\x27' ∨ quote = '\x22') (c : Char) :
    ∃ d ds, escapeChar quote c = d :: ds ∧ d ≠ quote := by
  have hslash : '\\' ≠ quote := by rcases hq with rfl | rfl <;> decide
  unfold escapeChar
  split
  · exact ⟨_, _, rfl, hslash⟩
  split
  · exact ⟨_, _, rfl, hslash⟩
  split
  · exact ⟨_, _, rfl, hslash⟩
  split
  · exact ⟨_, _, rfl, hslash⟩
  split
  · exact ⟨_, _, rfl, hslash⟩
  split
  · exact ⟨_, _, rfl, hslash⟩
  · exact ⟨_, _, rfl, ‹_›⟩

/-- A quoted text never opens with three quotes: behind an empty text the input ends or a
delimiter stands. -/
theorem opensTriple_quoted (hq : quote = '\x27' ∨ quote = '\x22') (cs : List Char)
    (ht : Ends t) :
    opensTriple quote (cs.flatMap (escapeChar quote) ++ quote :: t) = false := by
  cases cs with
  | nil =>
    cases t with
    | nil => rfl
    | cons d t =>
      have hd := (not_continues_of_isDelimiter (ht d rfl)).2.2.2.2.2.2.2
      have hne : d ≠ quote := by
        rintro rfl
        rcases hq with rfl | rfl <;> cases hd
      simp [opensTriple, hne]
  | cons c cs =>
    obtain ⟨d, ds, hd, hne⟩ := exists_cons_escapeChar hq c
    rw [List.flatMap_cons, hd, List.cons_append, List.cons_append]
    unfold opensTriple
    split
    · rename_i hcons
      rw [← (List.cons.inj hcons).1, beq_false_of_ne hne, Bool.false_and]
    · rfl

end

/-- A quoted text is read back. -/
theorem text_quoted (cs : List Char) {r : List Char} (hr : Ends r) :
    text (quoted cs ++ r) = .ok (cs, r) := by
  have hq := quoteFor_cases cs
  have hquote : isQuote (quoteFor cs) = true := by
    rcases hq with h | h <;> rw [h] <;> rfl
  refine text_eq_ok_iff.2 ⟨⟨quoteFor cs, false, false⟩,
    cs.flatMap (escapeChar (quoteFor cs)) ++ quoteFor cs :: r, ⟨hquote, ⟨[], .none, ?_⟩, ?_⟩,
    pieces_escapeChars hq cs _⟩
  · simp [quoted, TextStyle.closing]
  · intro _ hthree
    rw [← opensTriple_iff, opensTriple_quoted hq cs hr] at hthree
    cases hthree

/-- The printed form of a text writes the text. -/
theorem form_str [Payloads] {item : Writes Value} (s : String) {r : List Char} (hr : Ends r) :
    Form item ((str s).chars ++ r) (.str s) r := by
  have h : Form item ((str s).chars ++ r) (.str (String.ofList s.toList)) r :=
    .texts (.one (text_quoted s.toList hr))
  rwa [String.ofList_toList] at h

end TypedSettings.Literal
