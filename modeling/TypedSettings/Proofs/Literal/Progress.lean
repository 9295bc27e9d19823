import TypedSettings.Proofs.Literal.Recognition
import TypedSettings.Proofs.Steps

/-!
# Progress of the readers

Every reader of literals stays inside the characters that it is given: what it leaves, and the place
of a fault, is a suffix of them, and what a fault names stands at its place (`Shows`). Loops have
fuel for all of their rounds, so that none of them ends for lack of it. Main statement: whatever is
read as a value, a number, a text or several texts takes at least one character
(`advancesIn_value`, `advancesIn_number`, `advancesIn_text`, `advancesIn_texts`).
-/

namespace TypedSettings.Literal

open Text Number

/-- What a fault names stands at its place: the character, the name, or the end of the input. -/
def Shows (f : Fault Char Cause) : Prop :=
  match f.cause with
  | .unexpected c => f.left.head? = some c
  | .badTextMark name | .unknownName name => name.toList <+: f.left
  | .endOfInput => f.left = []
  | _ => True

/-! ## Numbers -/

section
variable {negative : Bool} {s start r : List Char}

theorem staysIn_digitRun (isDigit : Char → Bool) (mayPause : Bool) (s : List Char) :
    (digitRun isDigit mayPause s).StaysIn Shows s := by
  induction s generalizing mayPause with
  | nil => exact List.suffix_rfl
  | cons c s ih =>
    rw [digitRun]
    split
    · exact ((ih true).mono (List.suffix_cons ..)).next fun _ _ hr => hr
    · split
      · split
        · exact (ih false).mono (List.suffix_cons ..)
        · exact ⟨List.suffix_rfl, trivial⟩
      · exact List.suffix_rfl

theorem staysIn_fractionPart (s : List Char) : (fractionPart s).StaysIn Shows s := by
  unfold fractionPart
  split
  · split
    · exact ((staysIn_digitRun ..).mono (List.suffix_cons ..)).next fun _ _ hr => hr
    · exact List.suffix_cons ..
  · exact List.suffix_rfl

theorem staysIn_exponentPart (s : List Char) : (exponentPart s).StaysIn Shows s := by
  unfold exponentPart
  split
  · split
    · dsimp only
      split
      · exact ((staysIn_digitRun ..).mono ((signOf_suffix _).trans (List.suffix_cons ..))).next
          fun _ _ hr => hr
      · exact ⟨List.suffix_rfl, trivial⟩
    · exact List.suffix_rfl
  · exact List.suffix_rfl

variable [Payloads]

theorem staysIn_intValue {base : Nat} {ds : List Char} (hs : s <:+ start) :
    (intValue negative base start ds s).StaysIn Shows start := by
  unfold intValue
  split
  · exact hs
  · exact ⟨List.suffix_rfl, trivial⟩

theorem staysIn_basedInt {base : Nat} (hs : s <:+ start) :
    (basedInt negative start base s).StaysIn Shows start := by
  refine ((staysIn_digitRun ..).mono hs).next fun ds r hr => ?_
  split
  · exact ⟨List.suffix_rfl, trivial⟩
  · exact staysIn_intValue hr

theorem staysIn_decimalNumber (s : List Char) : (decimalNumber negative s).StaysIn Shows s := by
  refine (staysIn_digitRun ..).next fun whole a ha => ?_
  refine ((staysIn_fractionPart a).mono ha).next fun fraction b hb => ?_
  refine ((staysIn_exponentPart b).mono hb).next fun exponent c hc => ?_
  split
  · exact hc
  split
  · exact ⟨List.suffix_rfl, trivial⟩
  · exact staysIn_intValue hc

theorem staysIn_openNumber (s : List Char) : (openNumber negative s).StaysIn Shows s := by
  unfold openNumber
  split
  · exact staysIn_basedInt (based?_suffix ‹_›)
  · exact staysIn_decimalNumber s

theorem staysIn_number (s : List Char) : (number negative s).StaysIn Shows s := by
  refine (staysIn_openNumber s).next fun v r hr => ?_
  split
  · exact ⟨hr, trivial⟩
  · exact hr

omit [Payloads] in
/-- A run that starts with a digit takes it. -/
theorem length_lt_of_digitRun {isDigit : Char → Bool} {mayPause : Bool} {c : Char} {ds : List Char}
    (hc : isDigit c = true) (h : digitRun isDigit mayPause (c :: s) = .ok (ds, r)) :
    r.length < (c :: s).length := by
  rw [digitRun, if_pos hc] at h
  obtain ⟨ds, r', hd, h⟩ := Step.next_eq_ok.1 h
  cases h
  exact Nat.lt_succ_of_le (digitRun_suffix hd).length_le

omit [Payloads] in
/-- Where a number starts, the digits before the point or the fraction take a character. -/
theorem length_lt_of_decimal {whole a : List Char} {fraction : Option (List Char)}
    (hs : startsNumber s = true) (hw : digitRun Char.isDigit false s = .ok (whole, a))
    (hf : fractionPart a = .ok (fraction, r)) : r.length < s.length := by
  have hle := (fractionPart_suffix hf).length_le
  unfold startsNumber at hs
  split at hs
  · rename_i c t
    cases hw
    simp only [fractionPart, List.head?_cons, Option.any_some, hs, if_true] at hf
    obtain ⟨ds, r', hd, hf⟩ := Step.next_eq_ok.1 hf
    cases hf
    exact Nat.lt_succ_of_le (digitRun_suffix hd).length_le
  · exact Nat.lt_of_le_of_lt hle (length_lt_of_digitRun hs hw)
  · cases hs

theorem length_lt_of_number {v : Value} (hs : startsNumber s = true)
    (h : number negative s = .ok (v, r)) : r.length < s.length := by
  obtain ⟨w, r', ho, h⟩ := Step.next_eq_ok.1 h
  split at h
  · cases h
  cases h
  unfold openNumber at ho
  split at ho
  · rename_i base ds hb
    have hle := (basedInt_suffix ho).length_le
    unfold based? at hb
    split at hb
    · obtain ⟨_, _, hb⟩ := Option.map_eq_some_iff.1 hb
      cases hb
      exact Nat.lt_succ_of_le (Nat.le_succ_of_le hle)
    · cases hb
  · obtain ⟨whole, a, hw, ho⟩ := Step.next_eq_ok.1 ho
    obtain ⟨fraction, b, hf, ho⟩ := Step.next_eq_ok.1 ho
    obtain ⟨exponent, c, he, ho⟩ := Step.next_eq_ok.1 ho
    have hlt := length_lt_of_decimal hs hw hf
    have hle := (exponentPart_suffix he).length_le
    split at ho
    · cases ho
      omega
    split at ho
    · cases ho
    · rw [(intValue_eq_ok_iff.1 ho).1]
      omega

/-- A number takes at least one character, if one starts where it is read. -/
theorem advancesIn_number (hs : startsNumber s = true) :
    (number negative s).AdvancesIn Shows s :=
  (staysIn_number s).advancesIn fun _ _ h => length_lt_of_number hs h

end

/-! ## Texts -/

section
variable {s start r : List Char}

theorem staysIn_charOf (n : Nat) (s : List Char) : (charOf n s).StaysIn Shows s := by
  unfold charOf
  split
  · exact List.suffix_rfl
  · exact ⟨List.suffix_rfl, trivial⟩

theorem staysIn_hexDigits (width n : Nat) (s : List Char) :
    (hexDigits width n s).StaysIn Shows s := by
  induction width generalizing n s with
  | zero => exact List.suffix_rfl
  | succ width ih =>
    cases s with
    | nil => exact ⟨List.suffix_rfl, trivial⟩
    | cons c s =>
      rw [hexDigits]
      split
      · exact (ih _ s).mono (List.suffix_cons ..)
      · exact ⟨List.suffix_rfl, trivial⟩

theorem octalDigits_suffix (width n : Nat) (s : List Char) : (octalDigits width n s).2 <:+ s := by
  obtain ⟨run, hs, -⟩ := exists_run_of_octalDigits width n s
  exact ⟨run, hs.symm⟩

theorem staysIn_escape (style : TextStyle) (c : Char) (s : List Char) :
    (style.escape c s).StaysIn Shows s := by
  unfold TextStyle.escape escape
  split
  · exact List.suffix_rfl
  split
  · exact List.suffix_rfl
  split
  · exact (staysIn_charOf ..).mono (octalDigits_suffix ..)
  split
  · exact (staysIn_hexDigits ..).next fun n r hr => (staysIn_charOf n r).mono hr
  · exact List.suffix_rfl

theorem staysIn_textBody (style : TextStyle) (fuel : Nat) (hs : s <:+ start) :
    (textBody style start fuel s).StaysIn Shows start := by
  induction fuel generalizing s with
  | zero => exact ⟨List.suffix_rfl, trivial⟩
  | succ fuel ih =>
    rw [textBody.eq_def]
    dsimp only
    split
    · exact (dropStart?_suffix ‹_›).trans hs
    · exact ⟨List.suffix_rfl, trivial⟩
    · exact ⟨List.suffix_rfl, trivial⟩
    · rename_i c r _
      have hr : r <:+ start := (List.suffix_cons ..).trans ((List.suffix_cons ..).trans hs)
      refine ((staysIn_escape style c r).mono hr).next fun piece a ha => ?_
      exact (ih ha).next fun _ _ hb => hb
    · split
      · exact ⟨List.suffix_rfl, trivial⟩
      · exact (ih ((List.suffix_cons ..).trans hs)).next fun _ _ hb => hb

theorem textMark_suffix (s : List Char) : (textMark s).2 <:+ s := by
  unfold textMark
  split
  · split
    · exact List.suffix_cons ..
    · exact List.suffix_rfl
  · exact List.suffix_rfl

theorem staysIn_text (s : List Char) : (text s).StaysIn Shows s := by
  have hmark := textMark_suffix s
  unfold text
  split
  · rename_i raw quote r hm
    rw [hm] at hmark
    split
    · refine staysIn_textBody _ _ (.trans ?_ ((List.suffix_cons ..).trans hmark))
      split
      · exact List.drop_suffix ..
      · exact List.suffix_rfl
    · exact ⟨hmark, trivial⟩
  · exact ⟨List.nil_suffix, trivial⟩

/-- A text takes at least one character. -/
theorem advancesIn_text (s : List Char) : (text s).AdvancesIn Shows s :=
  (staysIn_text s).advancesIn fun _ _ h => length_lt_of_text h

theorem dropTrivia_suffix (s : List Char) : dropTrivia s <:+ s := (trivia_dropTrivia s).suffix

theorem staysIn_moreTexts (fuel : Nat) (s : List Char) :
    (moreTexts fuel s).StaysIn Shows s := by
  induction fuel generalizing s with
  | zero => exact List.suffix_rfl
  | succ fuel ih =>
    rw [moreTexts]
    split
    · refine ((staysIn_text _).mono (dropTrivia_suffix s)).next fun cs a ha => ?_
      exact ((ih a).mono ha).next fun _ _ hb => hb
    · exact List.suffix_rfl

/-- Several texts take at least one character, though the trivia behind them is given back. -/
theorem advancesIn_texts (s : List Char) : (texts s).AdvancesIn Shows s := by
  refine (advancesIn_text s).next fun cs a ha hlt => ?_
  have hmore := (staysIn_moreTexts a.length a).next (f := fun rest r => .ok (cs ++ rest, r))
    fun _ _ hb => hb
  exact hmore.advances ha hlt

variable [Payloads]

theorem advancesIn_textValue (s : List Char) : (textValue s).AdvancesIn Shows s :=
  (advancesIn_texts s).next fun _ _ ha hlt => ⟨ha, hlt⟩

end

/-! ## Names -/

section
variable {s r : List Char}

theorem suffix_of_eat? {c : Char} (h : eat? c (dropTrivia s) = some r) : c :: r <:+ s := by
  rw [← eat?_eq_some_iff.1 h]
  exact dropTrivia_suffix s

theorem emptyCall?_suffix (h : emptyCall? s = some r) : r <:+ s := by
  obtain ⟨t, ht, hr⟩ := Option.bind_eq_some_iff.1 h
  exact (List.suffix_cons ..).trans
    ((suffix_of_eat? hr).trans ((List.suffix_cons ..).trans (suffix_of_eat? ht)))

variable [Payloads]

/-- A name takes at least one character, though a text is read from its mark on. -/
theorem advancesIn_named (s : List Char) : (named s).AdvancesIn Shows s := by
  have happend : s.takeWhile isWordChar ++ s.dropWhile isWordChar = s :=
    List.takeWhile_append_dropWhile
  have hrest : s.dropWhile isWordChar <:+ s := List.dropWhile_suffix _
  have hname : (String.ofList (s.takeWhile isWordChar)).toList <+: s := by
    rw [String.toList_ofList]
    exact List.takeWhile_prefix _
  have hlt : ∀ {name : List Char}, s.takeWhile isWordChar = name → name ≠ [] →
      (s.dropWhile isWordChar).length < s.length := by
    intro name heq hne
    have hlength := congrArg List.length happend
    rw [List.length_append, heq] at hlength
    have := List.length_pos_iff.2 hne
    omega
  unfold named
  dsimp only
  split
  · split
    · exact advancesIn_textValue s
    · exact ⟨List.suffix_rfl, hname⟩
  split
  · exact ⟨hrest, hlt ‹_› (by simp)⟩
  split
  · exact ⟨hrest, hlt ‹_› (by simp)⟩
  split
  · exact ⟨hrest, hlt ‹_› (by simp)⟩
  split
  · split
    · rename_i r hr
      exact ⟨(emptyCall?_suffix hr).trans hrest,
        Nat.lt_of_le_of_lt (emptyCall?_suffix hr).length_le (hlt ‹_› (by simp))⟩
    · exact ⟨List.suffix_rfl, trivial⟩
  · exact ⟨List.suffix_rfl, hname⟩

end

/-! ## Displays -/

section
variable [Payloads]

variable {item : ItemReader} {s r : List Char}

theorem staysIn_requireHashable {α : Type} {x : Step α} {place : List Char}
    (hx : x.StaysIn Shows s) (v : Value) (hplace : place <:+ s) :
    (requireHashable v place x).StaysIn Shows s := by
  unfold requireHashable
  split
  · exact hx
  · exact ⟨hplace, trivial⟩

omit [Payloads] in
/-- Behind a mark fewer characters are left than fuel for the next round. -/
theorem length_lt_of_eat? {c : Char} {a : List Char} {fuel : Nat}
    (h : eat? c (dropTrivia a) = some r) (ha : a <:+ s) (hf : s.length < fuel + 1) :
    r.length < fuel := by
  have hr := (suffix_of_eat? h).length_le
  have ha := ha.length_le
  rw [List.length_cons] at hr
  omega

omit [Payloads] in
theorem rest_suffix {c : Char} {a : List Char} (h : eat? c (dropTrivia a) = some r)
    (ha : a <:+ s) : r <:+ s :=
  (List.suffix_cons ..).trans ((suffix_of_eat? h).trans ha)

theorem staysIn_items (hitem : ∀ s, (item s).StaysIn Shows s) (closing : Char) (fuel : Nat)
    (hf : s.length < fuel) : (items item closing fuel s).StaysIn Shows s := by
  induction fuel generalizing s with
  | zero => omega
  | succ fuel ih =>
    rw [items]
    split
    · exact rest_suffix ‹_› List.suffix_rfl
    · refine ((hitem _).mono (dropTrivia_suffix s)).next fun v a ha => ?_
      split
      · rename_i r hcomma
        refine ((ih (length_lt_of_eat? hcomma ha hf)).mono (rest_suffix hcomma ha)).next ?_
        exact fun _ _ hb => hb
      · split
        · exact rest_suffix ‹_› ha
        · exact ⟨(dropTrivia_suffix a).trans ha, trivial⟩

theorem advancesIn_member (hitem : ∀ s, (item s).AdvancesIn Shows s) (s : List Char) :
    (member item s).AdvancesIn Shows s := by
  refine (hitem s).next fun v r hr hlt => ?_
  unfold requireHashable
  split
  · exact ⟨hr, hlt⟩
  · exact ⟨List.suffix_rfl, trivial⟩

theorem advancesIn_entry (hitem : ∀ s, (item s).AdvancesIn Shows s) (s : List Char) :
    (entry item s).AdvancesIn Shows s := by
  refine (advancesIn_member hitem s).next fun k a ha hlt => ?_
  split
  · rename_i r hcolon
    refine Step.StaysIn.advances ?_ ha hlt
    exact ((hitem r).staysIn.mono (rest_suffix hcolon List.suffix_rfl)).next fun _ _ hb => hb
  · exact ⟨(dropTrivia_suffix a).trans ha, trivial⟩

theorem staysIn_moreEntries (hitem : ∀ s, (item s).AdvancesIn Shows s) (fuel : Nat)
    (hf : s.length < fuel) : (moreEntries item fuel s).StaysIn Shows s := by
  induction fuel generalizing s with
  | zero => omega
  | succ fuel ih =>
    rw [moreEntries]
    split
    · exact rest_suffix ‹_› List.suffix_rfl
    split
    · exact ⟨dropTrivia_suffix s, trivial⟩
    · rename_i a hcomma
      have ha : a <:+ s := rest_suffix hcomma List.suffix_rfl
      have hlt := length_lt_of_eat? hcomma List.suffix_rfl hf
      split
      · exact rest_suffix ‹_› ha
      · refine (((advancesIn_entry hitem _).mono (dropTrivia_suffix a)).staysIn.next ?_).mono ha
        intro e b hb
        exact ((ih (Nat.lt_of_le_of_lt hb.length_le hlt)).mono hb).next fun _ _ hc => hc

theorem staysIn_bracketed (hitem : ∀ s, (item s).AdvancesIn Shows s) (s : List Char) :
    (bracketed item s).StaysIn Shows s :=
  (staysIn_items (fun s => (hitem s).staysIn) _ _ (Nat.lt_succ_self _)).next fun _ _ hr => hr

theorem staysIn_parenthesized (hitem : ∀ s, (item s).AdvancesIn Shows s) (s : List Char) :
    (parenthesized item s).StaysIn Shows s := by
  unfold parenthesized
  split
  · exact rest_suffix ‹_› List.suffix_rfl
  · refine ((hitem _).staysIn.mono (dropTrivia_suffix s)).next fun v a ha => ?_
    split
    · exact rest_suffix ‹_› ha
    split
    · rename_i r hcomma
      refine Step.StaysIn.mono ?_ (rest_suffix hcomma ha)
      exact (staysIn_items (fun s => (hitem s).staysIn) _ _ (Nat.lt_succ_self _)).next
        fun _ _ hb => hb
    · exact ⟨(dropTrivia_suffix a).trans ha, trivial⟩

theorem staysIn_mapAfter (hitem : ∀ s, (item s).AdvancesIn Shows s) (k : Value) (s : List Char) :
    (mapAfter item k s).StaysIn Shows s := by
  refine (hitem s).staysIn.next fun v a ha => ?_
  exact ((staysIn_moreEntries hitem _ (Nat.lt_succ_self _)).mono ha).next fun _ _ hb => hb

theorem staysIn_setAfter (hitem : ∀ s, (item s).AdvancesIn Shows s) (v : Value) (s : List Char) :
    (setAfter item v s).StaysIn Shows s := by
  unfold setAfter
  split
  · exact rest_suffix ‹_› List.suffix_rfl
  split
  · rename_i r hcomma
    refine Step.StaysIn.mono ?_ (rest_suffix hcomma List.suffix_rfl)
    exact (staysIn_items (fun s => (advancesIn_member hitem s).staysIn) _ _
      (Nat.lt_succ_self _)).next fun _ _ hb => hb
  · exact ⟨dropTrivia_suffix s, trivial⟩

theorem staysIn_braced (hitem : ∀ s, (item s).AdvancesIn Shows s) (s : List Char) :
    (braced item s).StaysIn Shows s := by
  unfold braced
  split
  · exact rest_suffix ‹_› List.suffix_rfl
  · refine ((hitem _).staysIn.mono (dropTrivia_suffix s)).next fun v a ha => ?_
    refine staysIn_requireHashable ?_ v (dropTrivia_suffix s)
    split
    · rename_i r hcolon
      exact (staysIn_mapAfter hitem v r).mono (rest_suffix hcolon ha)
    · exact (staysIn_setAfter hitem v a).mono ha

/-! ## Values -/

theorem advancesIn_valueFrom (hitem : ∀ s, (item s).AdvancesIn Shows s) (c : Char)
    (s : List Char) : (valueFrom item c s).AdvancesIn Shows (c :: s) := by
  unfold valueFrom
  split
  · split
    · exact ((staysIn_number _).mono (dropTrivia_suffix s)).advances_cons
    · exact ⟨List.suffix_rfl, trivial⟩
  split
  · exact advancesIn_number ‹_›
  split
  · exact advancesIn_textValue _
  split
  · exact (staysIn_bracketed hitem s).advances_cons
  split
  · exact (staysIn_parenthesized hitem s).advances_cons
  split
  · exact (staysIn_braced hitem s).advances_cons
  split
  · exact advancesIn_named _
  · exact ⟨List.suffix_rfl, rfl⟩

end

/-- A value takes at least one character. -/
theorem advancesIn_value [Payloads] (levels : Nat) (s : List Char) :
    (value levels s).AdvancesIn Shows s := by
  induction levels generalizing s with
  | zero => exact ⟨List.suffix_rfl, trivial⟩
  | succ levels ih =>
    have htrivia := dropTrivia_suffix s
    rw [value]
    split
    · exact ⟨List.nil_suffix, rfl⟩
    · rename_i c r hs
      rw [hs] at htrivia
      exact (advancesIn_valueFrom ih c r).mono htrivia

end TypedSettings.Literal
