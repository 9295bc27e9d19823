import TypedSettings.Proofs.Literal.Escapes
import TypedSettings.Proofs.Literal.Recognition

/-!
# Texts piece by piece

The body of a text is a sequence of pieces: plain characters, and backslashes with what belongs to
them (`Piece`, `Pieces`). Behind the pieces the closing quotes stand, or the text is stuck
(`exists_pieces`). One piece is read as its meaning (`textBody_of_piece`), and so the pieces are,
one after the other (`textBody_of_pieces`); which decides what is read of a text, and what its fault
is (`text_iff_of_opens`). Main statement: a literal that starts as a text does is the meanings of
its texts, one after the other, and a text that is stuck is its fault (`parse_pieces`).
-/

namespace TypedSettings.Literal

open Text

/-! ## The grammar of texts -/

/-- A piece of the body of a text, and its meaning: a character that is no backslash, where the
closing quotes do not stand, a newline in three quotes only; a backslash and the character behind
it, both kept, in a raw text; and an escape in one that is not raw. -/
inductive Piece (style : TextStyle) : Writes (List Char) where
  | plain {c : Char} {r : List Char} : c ≠ '\\' → ¬ style.closing <+: c :: r →
      (c = '\n' → style.triple = true) → Piece style (c :: r) [c] r
  | kept {c : Char} {r : List Char} : style.raw = true → Piece style ('\\' :: c :: r) ['\\', c] r
  | escaped {s cs r : List Char} : style.raw = false → Escape s cs r → Piece style ('\\' :: s) cs r

inductive Pieces (style : TextStyle) : Writes (List Char) where
  | done (s : List Char) : Pieces style s [] s
  | more {s a r cs ds : List Char} : Piece style s cs a → Pieces style a ds r →
      Pieces style s (cs ++ ds) r

/-- The body of a text goes on neither with a piece nor with the closing quotes, and the fault of
that: the input ends, also right behind a backslash, or in single quotes the line ends, which is a
fault of the whole text; or a bad escape stands in a text that is not raw. -/
inductive Stuck (style : TextStyle) (start : List Char) : List Char → Fault Char Cause → Prop where
  | unterminated {s : List Char} :
      s = [] ∨ s = ['\\'] ∨ style.triple = false ∧ s.head? = some '\n' →
      Stuck style start s ⟨.unterminated, start⟩
  | badEscape {s : List Char} {f : Fault Char Cause} : style.raw = false → BadEscape s f →
      Stuck style start ('\\' :: s) f

/-- What may stand in front of the quotes, and whether it makes the text raw. -/
inductive IsTextMark : Bool → List Char → Prop where
  | none : IsTextMark false []
  | plain {c : Char} : c = 'u' ∨ c = 'U' → IsTextMark false [c]
  | raw {c : Char} : c = 'r' ∨ c = 'R' → IsTextMark true [c]

/-- A text starts with a mark or none and the quotes of its style, one or three, in front of its
body. Three equal quotes always open a text in three quotes. -/
def OpensText (style : TextStyle) (s body : List Char) : Prop :=
  isQuote style.quote = true ∧
    (∃ mark, IsTextMark style.raw mark ∧ s = mark ++ (style.closing ++ body)) ∧
    (style.triple = false → ¬ [style.quote, style.quote] <+: body)

def TextToken : Writes (List Char) := fun s cs r =>
  ∃ style body, OpensText style s body ∧ Pieces style body cs (style.closing ++ r)

inductive TextRow : Writes (List Char) where
  | one {s r cs : List Char} : TextToken s cs r → TextRow s cs r
  | more {s a b r cs ds : List Char} : TextToken s cs a → Trivia a b → TextRow b ds r →
      TextRow s (cs ++ ds) r

/-! ## Steps -/

/-- Where one of two alternatives holds and either decides the step, the step says which holds. -/
theorem Step.iff_of_exhaustive {α : Type} {x : Step α} {good : α → List Char → Prop}
    {bad : Fault Char Cause → Prop} (hgood : ∀ a r, good a r → x = .ok (a, r))
    (hbad : ∀ f, bad f → x = .error f) (hall : (∃ a r, good a r) ∨ ∃ f, bad f) :
    (∀ a r, x = .ok (a, r) ↔ good a r) ∧ ∀ f, x = .error f ↔ bad f := by
  constructor
  · refine fun a r => ⟨fun h => ?_, hgood a r⟩
    obtain ⟨a', r', ha⟩ | ⟨f, hf⟩ := hall
    · rw [hgood a' r' ha] at h
      cases h
      exact ha
    · rw [hbad f hf] at h
      cases h
  · refine fun f => ⟨fun h => ?_, hbad f⟩
    obtain ⟨a, r, ha⟩ | ⟨f', hf⟩ := hall
    · rw [hgood a r ha] at h
      cases h
    · rw [hbad f' hf] at h
      cases h
      exact hf

/-! ## Pieces -/

section
variable {style : TextStyle} {start s r cs : List Char} {f : Fault Char Cause}

theorem dropStart?_eq_some_iff {start : List Char} :
    dropStart? start s = some r ↔ s = start ++ r := by
  induction start generalizing s with
  | nil => simp [dropStart?]
  | cons x xs ih =>
    cases s with
    | nil => simp [dropStart?]
    | cons c s =>
      by_cases h : x = c
      · simp [dropStart?, h, ih]
      · simp [dropStart?, h, Ne.symm h]

theorem dropStart?_eq_none (h : ¬ start <+: s) : dropStart? start s = none := by
  rw [Option.eq_none_iff_forall_ne_some]
  intro r hr
  exact h ⟨r, (dropStart?_eq_some_iff.1 hr).symm⟩

/-- The closing quotes start with a quote. -/
theorem dropStart?_closing (h : s.head? ≠ some style.quote) :
    dropStart? style.closing s = none := by
  refine dropStart?_eq_none ?_
  rintro ⟨t, rfl⟩
  unfold TextStyle.closing at h
  split at h <;> exact h rfl

theorem ne_of_isQuote {c : Char} (h : isQuote c = true) : '\\' ≠ c ∧ '\n' ≠ c := by
  simp only [isQuote, Bool.or_eq_true, beq_iff_eq] at h
  rcases h with rfl | rfl <;> decide

theorem Escape.suffix (h : Escape s cs r) : r <:+ s := by
  cases h with
  | named _ => exact List.suffix_cons ..
  | octal _ _ _ => exact List.suffix_append ..
  | hexadecimal _ _ _ _ => exact (List.suffix_append ..).trans (List.suffix_cons ..)
  | other _ _ _ => exact List.suffix_cons ..

theorem Escape.exists_cons (h : Escape s cs r) : ∃ c t, s = c :: t := by
  cases h with
  | named _ => exact ⟨_, _, rfl⟩
  | octal _ hne _ =>
    obtain ⟨d, ds, rfl⟩ := List.exists_cons_of_ne_nil hne
    exact ⟨d, _, rfl⟩
  | hexadecimal _ _ _ _ => exact ⟨_, _, rfl⟩
  | other _ _ _ => exact ⟨_, _, rfl⟩

theorem BadEscape.exists_cons (h : BadEscape s f) : ∃ c t, s = c :: t := by
  cases h with
  | truncated _ _ _ => exact ⟨_, _, rfl⟩
  | noCharacter _ _ _ _ => exact ⟨_, _, rfl⟩

theorem Piece.length_lt (h : Piece style s cs r) : r.length < s.length := by
  cases h with
  | plain _ _ _ => exact Nat.lt_succ_self _
  | kept _ => exact Nat.lt_succ_of_lt (Nat.lt_succ_self _)
  | escaped _ he => exact Nat.lt_succ_of_le he.suffix.length_le

/-- The body of a text is pieces as far as the closing quotes, or as far as it is stuck. -/
theorem exists_pieces (style : TextStyle) (start s : List Char) : ∃ cs r, Pieces style s cs r ∧
    ((∃ t, r = style.closing ++ t) ∨ ∃ f, Stuck style start r f) := by
  -- on the characters that are left, of which every piece takes at least one
  induction hn : s.length using Nat.strong_induction_on generalizing s with
  | _ n ih =>
  have more : ∀ {cs a}, Piece style s cs a → ∃ cs r, Pieces style s cs r ∧
      ((∃ t, r = style.closing ++ t) ∨ ∃ f, Stuck style start r f) := by
    intro cs a hp
    obtain ⟨ds, r, hpieces, hend⟩ := ih a.length (hn ▸ hp.length_lt) a rfl
    exact ⟨_, r, .more hp hpieces, hend⟩
  by_cases hclosing : style.closing <+: s
  · obtain ⟨t, ht⟩ := hclosing
    exact ⟨[], s, .done s, .inl ⟨t, ht.symm⟩⟩
  have stuck : ∀ {f}, Stuck style start s f → ∃ cs r, Pieces style s cs r ∧
      ((∃ t, r = style.closing ++ t) ∨ ∃ f, Stuck style start r f) :=
    fun h => ⟨[], s, .done s, .inr ⟨_, h⟩⟩
  cases s with
  | nil => exact stuck (.unterminated (.inl rfl))
  | cons c s =>
    by_cases hslash : c = '\\'
    · subst hslash
      cases s with
      | nil => exact stuck (.unterminated (.inr (.inl rfl)))
      | cons c s =>
        by_cases hraw : style.raw = true
        · exact more (.kept hraw)
        have hcooked : style.raw = false := by simpa using hraw
        rcases exists_escape c s with ⟨cs, a, he⟩ | ⟨f, hf⟩
        · exact more (.escaped hcooked he)
        · exact stuck (.badEscape hcooked hf)
    by_cases hline : c = '\n' ∧ style.triple = false
    · exact stuck (.unterminated (.inr (.inr ⟨hline.2, by rw [hline.1]; rfl⟩)))
    · exact more (.plain hslash hclosing fun hc => by simpa [hc] using hline)

/-! ## Reading bodies -/

/-- A piece is read as its meaning, and then the rest is. -/
theorem textBody_of_piece (hq : isQuote style.quote = true) (h : Piece style s cs r) (fuel : Nat) :
    textBody style start (fuel + 1) s =
      (textBody style start fuel r).next fun rest t => .ok (cs ++ rest, t) := by
  have hslash : ∀ t, dropStart? style.closing ('\\' :: t) = none := fun t =>
    dropStart?_closing (by simpa using (ne_of_isQuote hq).1)
  rw [textBody.eq_def]
  cases h with
  | @plain c r hc hclosing hline =>
    have hkept : ¬ (c = '\n' ∧ style.triple = false) := by
      rintro ⟨hnewline, hsingle⟩
      rw [hline hnewline] at hsingle
      cases hsingle
    simp [dropStart?_eq_none hclosing, hc, hkept]
  | kept hraw => simp [hslash, TextStyle.escape, hraw, Step.next]
  | escaped hraw he =>
    obtain ⟨c, s, rfl⟩ := he.exists_cons
    simp [hslash, TextStyle.escape, hraw, escape_of_escape he, Step.next]

/-- Pieces are read as their meanings, one after the other, and then the rest is. The fuel suffices,
as every piece takes a character at least. -/
theorem textBody_of_pieces (start : List Char) (hq : isQuote style.quote = true)
    (h : Pieces style s cs r) {fuel : Nat} (hf : s.length < fuel) :
    ∃ left, textBody style start fuel s =
      (textBody style start (left + 1) r).next fun rest t => .ok (cs ++ rest, t) := by
  obtain ⟨fuel, rfl⟩ := Nat.exists_eq_succ_of_ne_zero (Nat.ne_of_gt (Nat.zero_lt_of_lt hf))
  induction h generalizing fuel with
  | done s =>
    refine ⟨fuel, ?_⟩
    rcases textBody style start (fuel + 1) s with f | ⟨rest, t⟩ <;> rfl
  | @more s a _ _ _ hp _ ih =>
    have hlt := hp.length_lt
    obtain ⟨fuel, rfl⟩ := Nat.exists_eq_succ_of_ne_zero (show fuel ≠ 0 by omega)
    obtain ⟨left, hrest⟩ := ih fuel (by omega)
    refine ⟨left, ?_⟩
    rw [textBody_of_piece hq hp, hrest]
    rcases textBody style start (left + 1) _ with f | ⟨rest, t⟩
    · rfl
    · simp [Step.next]

theorem textBody_closing (style : TextStyle) (start r : List Char) (fuel : Nat) :
    textBody style start (fuel + 1) (style.closing ++ r) = .ok ([], r) := by
  rw [textBody.eq_def]
  simp [dropStart?_eq_some_iff.2]

theorem textBody_of_stuck (hq : isQuote style.quote = true) (h : Stuck style start s f)
    (fuel : Nat) : textBody style start (fuel + 1) s = .error f := by
  have hslash : ∀ t, dropStart? style.closing ('\\' :: t) = none := fun t =>
    dropStart?_closing (by simpa using (ne_of_isQuote hq).1)
  rw [textBody.eq_def]
  cases h with
  | unterminated h =>
    rcases h with rfl | rfl | ⟨hsingle, hline⟩
    · have hnone : dropStart? style.closing [] = none := dropStart?_closing (by simp)
      simp [hnone]
    · simp [hslash]
    · obtain ⟨t, rfl⟩ := List.head?_eq_some_iff.1 hline
      have hnone : dropStart? style.closing ('\n' :: t) = none :=
        dropStart?_closing (by simpa using (ne_of_isQuote hq).2)
      simp [hnone, hsingle]
  | badEscape hraw hbad =>
    obtain ⟨c, t, rfl⟩ := hbad.exists_cons
    simp [hslash, TextStyle.escape, hraw, escape_of_badEscape hbad, Step.next]

/-- What is read of a body, and what its fault is. -/
theorem textBody_iff (hq : isQuote style.quote = true) {fuel : Nat} (hf : s.length < fuel) :
    (∀ cs r, textBody style start fuel s = .ok (cs, r) ↔
      Pieces style s cs (style.closing ++ r)) ∧
    ∀ f, textBody style start fuel s = .error f ↔
      ∃ cs r, Pieces style s cs r ∧ Stuck style start r f := by
  refine Step.iff_of_exhaustive ?_ ?_ ?_
  · intro cs r h
    obtain ⟨left, hread⟩ := textBody_of_pieces start hq h hf
    rw [hread, textBody_closing]
    simp [Step.next]
  · rintro f ⟨cs, r, h, hstuck⟩
    obtain ⟨left, hread⟩ := textBody_of_pieces start hq h hf
    rw [hread, textBody_of_stuck hq hstuck]
    rfl
  · obtain ⟨cs, r, h, ⟨t, rfl⟩ | ⟨f, hf⟩⟩ := exists_pieces style start s
    · exact .inl ⟨cs, t, h⟩
    · exact .inr ⟨f, cs, r, h, hf⟩

/-! ## Reading texts -/

theorem not_isTextMark_of_isQuote {c : Char} (h : isQuote c = true) : isTextMark c = false := by
  simp only [isQuote, Bool.or_eq_true, beq_iff_eq] at h
  rcases h with rfl | rfl <;> rfl

theorem opensTriple_iff {quote : Char} : opensTriple quote s = true ↔ [quote, quote] <+: s := by
  unfold opensTriple
  split
  · simp only [Bool.and_eq_true, beq_iff_eq, List.cons_prefix_cons, List.nil_prefix, and_true]
    exact and_congr eq_comm eq_comm
  · rename_i hshort
    refine iff_of_false Bool.false_ne_true ?_
    rintro ⟨t, rfl⟩
    exact hshort _ _ t rfl

/-- Behind its mark and its opening quotes the body of a text is read in its style. -/
theorem text_of_opens {body : List Char} (h : OpensText style s body) :
    text s = textBody style s (body.length + 1) body := by
  obtain ⟨hq, ⟨mark, hmark, rfl⟩, htriple⟩ := h
  obtain ⟨quote, triple, raw⟩ := style
  have htext : ∀ t, textMark (mark ++ quote :: t) = (raw, quote :: t) := by
    intro t
    cases hmark with
    | none => simp [textMark, not_isTextMark_of_isQuote hq]
    | plain hc => rcases hc with rfl | rfl <;> rfl
    | raw hc => rcases hc with rfl | rfl <;> rfl
  cases triple with
  | false =>
    have hsingle : opensTriple quote body = false := by
      rw [← Bool.not_eq_true, opensTriple_iff]
      exact htriple rfl
    simp [text, TextStyle.closing, htext, hq, hsingle]
  | true =>
    have hthree : opensTriple quote (quote :: quote :: body) = true :=
      opensTriple_iff.2 ⟨body, rfl⟩
    simp [text, TextStyle.closing, htext, hq, hthree]

/-- Where a text starts it opens in some style. -/
theorem exists_opensText (h : startsText s = true) : ∃ style body, OpensText style s body := by
  have hopens : ∀ {raw mark quote t}, IsTextMark raw mark → isQuote quote = true →
      ∃ style body, OpensText style (mark ++ quote :: t) body := by
    intro raw mark quote t hmark hq
    by_cases hthree : [quote, quote] <+: t
    · obtain ⟨body, rfl⟩ := hthree
      exact ⟨⟨quote, true, raw⟩, body, hq, ⟨mark, hmark, rfl⟩, fun h => by cases h⟩
    · exact ⟨⟨quote, false, raw⟩, t, hq, ⟨mark, hmark, rfl⟩, fun _ => hthree⟩
  rcases startsText_cases h with ⟨q, t, rfl, hq⟩ | ⟨m, q, t, rfl, hm, hq⟩
  · exact hopens .none hq
  · simp only [isTextMark, Bool.or_eq_true, beq_iff_eq] at hm
    rcases hm with ((rfl | rfl) | rfl) | rfl
    · exact hopens (.raw (.inl rfl)) hq
    · exact hopens (.raw (.inr rfl)) hq
    · exact hopens (.plain (.inl rfl)) hq
    · exact hopens (.plain (.inr rfl)) hq

theorem startsText_of_opens {body : List Char} (h : OpensText style s body) :
    startsText s = true := by
  obtain ⟨hq, ⟨mark, hmark, rfl⟩, -⟩ := h
  obtain ⟨t, ht⟩ : ∃ t, style.closing ++ body = style.quote :: t := by
    unfold TextStyle.closing
    split <;> exact ⟨_, rfl⟩
  rw [ht]
  generalize style.raw = raw at hmark
  cases hmark with
  | none => cases t <;> simp [startsText, hq]
  | plain hc => rcases hc with rfl | rfl <;> simp [startsText, isTextMark, hq]
  | raw hc => rcases hc with rfl | rfl <;> simp [startsText, isTextMark, hq]

/-- What is read of a text whose style is known, and what its fault is. -/
theorem text_iff_of_opens {body : List Char} (h : OpensText style s body) :
    (∀ cs r, text s = .ok (cs, r) ↔ Pieces style body cs (style.closing ++ r)) ∧
    ∀ f, text s = .error f ↔ ∃ cs r, Pieces style body cs r ∧ Stuck style s r f := by
  rw [text_of_opens h]
  exact textBody_iff h.1 (Nat.lt_succ_self _)

theorem text_eq_ok_iff : text s = .ok (cs, r) ↔ TextToken s cs r := by
  constructor
  · intro h
    obtain ⟨style, body, hopens⟩ := exists_opensText (startsText_of_text h)
    exact ⟨style, body, hopens, ((text_iff_of_opens hopens).1 cs r).1 h⟩
  · rintro ⟨style, body, hopens, h⟩
    exact ((text_iff_of_opens hopens).1 cs r).2 h

theorem textRow_iff : TextRow s cs r ↔ Texts s cs r := by
  constructor
  · intro h
    induction h with
    | one h => exact .one (text_eq_ok_iff.2 h)
    | more h ht _ ih => exact .more (text_eq_ok_iff.2 h) ht ih
  · intro h
    induction h with
    | one h => exact .one (text_eq_ok_iff.1 h)
    | more h ht _ ih => exact .more (text_eq_ok_iff.1 h) ht ih

/-! ## Literals of texts -/

/-- The fault of a text behind others is found when these have been read. -/
theorem moreTexts_of_fault {t : List Char} (h : Texts s cs r) (ht : Trivia r t)
    (hstarts : startsText t = true) (hf : text t = .error f) :
    ∃ ds a, text s = .ok (ds, a) ∧ ∀ fuel, a.length ≤ fuel → moreTexts fuel a = .error f := by
  induction h with
  | @one s r cs h =>
    refine ⟨cs, r, h, fun fuel hl => ?_⟩
    obtain ⟨c, t, rfl, -⟩ := id (opens_of_startsText hstarts)
    have hlt := ht.suffix.length_le
    rw [List.length_cons] at hlt
    obtain ⟨fuel, rfl⟩ : ∃ n, fuel = n + 1 := ⟨fuel - 1, by omega⟩
    rw [moreTexts, ht.eq_dropTrivia (opens_of_startsText hstarts).noTrivia]
    simp [hstarts, hf, Step.next]
  | @more s a b r cs ds h hab _ ih =>
    obtain ⟨es, c, hb, hmore⟩ := ih ht
    refine ⟨cs, a, h, fun fuel hl => ?_⟩
    have hcb := length_lt_of_text hb
    have hba := hab.suffix.length_le
    obtain ⟨fuel, rfl⟩ : ∃ n, fuel = n + 1 := ⟨fuel - 1, by omega⟩
    have hrest := hmore fuel (by omega)
    rw [moreTexts, hab.eq_dropTrivia (opens_of_text hb).noTrivia]
    simp [startsText_of_text hb, hb, hrest, Step.next]

/-- Texts have the fault of the first that has one. -/
theorem texts_eq_error {t : List Char} (h : t = s ∨ ∃ cs r, TextRow s cs r ∧ Trivia r t)
    (hstarts : startsText t = true) (hf : text t = .error f) : texts s = .error f := by
  rcases h with rfl | ⟨cs, r, hrow, ht⟩
  · rw [texts, hf]
    rfl
  · obtain ⟨ds, a, hs, hmore⟩ := moreTexts_of_fault (textRow_iff.1 hrow) ht hstarts hf
    rw [texts, hs]
    simp [Step.next, hmore a.length (Nat.le_refl _)]

variable [Payloads]

/-- A literal that starts as a text does is read as texts. -/
theorem value_of_startsText {raw : String} (hs : Trivia raw.toList s)
    (h : startsText s = true) (levels : Nat) :
    value (levels + 1) raw.toList = textValue s := by
  have hopens := opens_of_startsText h
  obtain ⟨c, t, rfl, -⟩ := id hopens
  rw [value, hs.eq_dropTrivia hopens.noTrivia]
  exact valueFrom_of_startsText h

end

/-- A literal that starts as a text does. The text is read as the meanings of its pieces if the
closing quotes of its style stand behind them, and it has a fault if it is stuck. The literal is
what its texts mean, one after the other, with trivia between them and behind them, and nothing else
is accepted; if one of them is stuck, then the literal is rejected with the fault of that. -/
theorem parse_pieces [Payloads] {raw : String} {style : TextStyle} {s body : List Char}
    (hs : Trivia raw.toList s) (h : OpensText style s body) :
    (∀ cs r, text s = .ok (cs, r) ↔ Pieces style body cs (style.closing ++ r)) ∧
    (∀ f, text s = .error f ↔ ∃ cs r, Pieces style body cs r ∧ Stuck style s r f) ∧
    (∀ v, parse raw = .ok v ↔
      ∃ cs r, v = .str (String.ofList cs) ∧ TextRow s cs r ∧ Trivia r []) ∧
    ∀ t, (t = s ∨ ∃ cs r, TextRow s cs r ∧ Trivia r t) → ∀ style body, OpensText style t body →
      ∀ cs r f, Pieces style body cs r → Stuck style t r f →
        parse raw = .error (.ofFault raw.toList f) := by
  have hvalue := value_of_startsText hs (startsText_of_opens h) maxDepth
  refine ⟨(text_iff_of_opens h).1, (text_iff_of_opens h).2, fun v => ?_, ?_⟩
  · rw [parse_eq_of_value, hvalue]
    constructor
    · intro hv
      split at hv
      · cases hv
      rename_i w r hw
      obtain ⟨cs, t, ht, hw⟩ := Step.next_eq_ok.1 hw
      cases hw
      split at hv
      · rename_i hr
        cases hv
        exact ⟨cs, r, rfl, textRow_iff.2 (texts_sound ht), hr ▸ trivia_dropTrivia r⟩
      · cases hv
    · rintro ⟨cs, r, rfl, hrow, hr⟩
      have hend : dropTrivia r = [] := hr.dropTrivia_eq
      have hread := texts_complete (textRow_iff.1 hrow) (by simp [Follows, hend])
      simp [textValue, hread, Step.next, hend]
  · intro t ht style body hopens cs r f hpieces hstuck
    have hf := ((text_iff_of_opens hopens).2 f).2 ⟨cs, r, hpieces, hstuck⟩
    rw [parse_eq_of_value, hvalue, textValue,
      texts_eq_error ht (startsText_of_opens hopens) hf]
    rfl

open Payloads.Integers in
theorem parse_pieces_samples :
    parse "'a\\1017\\x41\\d\\\n'" = .ok (.str "aA7A\\d") ∧
    parse " U'a' # b\nr\"\"\"\\\"\"c\"\"\"" = .ok (.str "a\\\"\"c") ∧
    parse "'a\nb'" = .error ⟨.unterminated, 0⟩ ∧
    parse "'' '\\ud800'" = .error ⟨.badCodePoint 0xd800, 10⟩ := by
  let single : TextStyle := ⟨'\x27', false, false⟩
  have hopens : ∀ body, ¬ ['\x27', '\x27'] <+: body → OpensText single ('\x27' :: body) body :=
    fun body h => ⟨rfl, ⟨[], .none, rfl⟩, fun _ => h⟩
  have htrivia : ∀ (raw : String) (s : List Char), raw.toList = s → Trivia raw.toList s :=
    fun _ s h => h ▸ .done s
  refine ⟨?_, ?_, ?_, ?_⟩
  · let body : List Char :=
      ['a', '\\', '1', '0', '1', '7', '\\', 'x', '4', '1', '\\', 'd', '\\', '\n', '\x27']
    have hoctal : Escape (['1', '0', '1'] ++ body.drop 5) ['A'] (body.drop 5) :=
      .octal ⟨List.all_eq_true.1 rfl, by decide, by decide⟩ (by decide)
        (by rw [← ofDigits_eq_positional]; decide)
    have hhexadecimal : Escape ('x' :: (['4', '1'] ++ body.drop 10)) ['A'] (body.drop 10) :=
      .hexadecimal (by decide) ⟨List.all_eq_true.1 rfl, by decide, by decide⟩ rfl
        (by rw [← ofDigits_eq_positional]; decide)
    have hpieces : Pieces single body _ ['\x27'] :=
      .more (.plain (by decide) (by decide) (by decide)) <|
      .more (.escaped rfl hoctal) <|
      .more (.plain (by decide) (by decide) (by decide)) <|
      .more (.escaped rfl hhexadecimal) <|
      .more (.escaped rfl (.other (by decide) (by decide) (by decide))) <|
      .more (.escaped rfl (@Escape.named '\n' [] _ (by decide))) <| .done _
    have hopen := hopens body (by decide)
    exact ((parse_pieces (htrivia _ ('\x27' :: body) (by decide +kernel)) hopen).2.2.1 _).2
      ⟨_, [], rfl, .one ⟨single, body, hopen, hpieces⟩, .done []⟩
  · let rawTriple : TextStyle := ⟨'\x22', true, true⟩
    let body : List Char := ['\\', '\x22', '\x22', 'c', '\x22', '\x22', '\x22']
    let second : List Char := 'r' :: '\x22' :: '\x22' :: '\x22' :: body
    let rest : List Char := [' ', '#', ' ', 'b', '\n'] ++ second
    let first : List Char := 'U' :: '\x27' :: 'a' :: '\x27' :: rest
    have hopen : OpensText single first ('a' :: '\x27' :: rest) :=
      ⟨rfl, ⟨['U'], .plain (.inr rfl), rfl⟩, fun _ => by decide⟩
    have hfirst : Pieces single ('a' :: '\x27' :: rest) _ ('\x27' :: rest) :=
      .more (.plain (by decide) (by decide) (by decide)) (.done _)
    have hsecond : Pieces rawTriple body _ ['\x22', '\x22', '\x22'] :=
      .more (.kept rfl) <| .more (.plain (by decide) (by decide) (by decide)) <|
      .more (.plain (by decide) (by decide) (by decide)) (.done _)
    have hrow : TextRow second _ [] := .one ⟨rawTriple, body,
      ⟨rfl, ⟨['r'], .raw (.inl rfl), rfl⟩, fun h => by cases h⟩, hsecond⟩
    have hblank : Trivia (' ' :: first) first := .blank (by decide) (.done first)
    exact ((parse_pieces ((htrivia _ _ (by decide +kernel)).trans hblank) hopen).2.2.1 _).2
      ⟨_, [], rfl, .more ⟨single, _, hopen, hfirst⟩ (trivia_dropTrivia rest) hrow, .done []⟩
  · let body : List Char := ['a', '\n', 'b', '\x27']
    have hpieces : Pieces single body _ ['\n', 'b', '\x27'] :=
      .more (.plain (by decide) (by decide) (by decide)) (.done _)
    have hopen := hopens body (by decide)
    exact (parse_pieces (htrivia "'a\nb'" ('\x27' :: body) (by decide +kernel)) hopen).2.2.2 _
      (.inl rfl) _ _ hopen _ _ _ hpieces (.unterminated (.inr (.inr ⟨rfl, rfl⟩)))
  · let body : List Char := ['\\', 'u', 'd', '8', '0', '0', '\x27']
    have hbad : BadEscape ('u' :: (['d', '8', '0', '0'] ++ ['\x27'])) _ :=
      .noCharacter (by decide) ⟨List.all_eq_true.1 rfl, by decide, by decide⟩ rfl
        (by rw [← ofDigits_eq_positional]; decide)
    let second : List Char := '\x27' :: body
    have hempty := hopens ('\x27' :: ' ' :: second) (by decide)
    have hrow : TextRow ('\x27' :: '\x27' :: ' ' :: second) [] (' ' :: second) :=
      .one ⟨single, _, hempty, .done _⟩
    refine ((parse_pieces (htrivia "'' '\\ud800'" _ (by decide +kernel)) hempty).2.2.2 second
      (.inr ⟨_, _, hrow, .blank (by decide) (.done second)⟩) _ _ (hopens body (by decide))
      _ _ _ (.done body) (.badEscape rfl hbad)).trans ?_
    rw [← ofDigits_eq_positional]
    exact congrArg Except.error (by decide +kernel)

end TypedSettings.Literal
