import Mathlib.Logic.Relation
import TypedSettings.Proofs.Literal.Progress

/-!
# Calls of the readers

The readers of literals call one another, and themselves in a loop, each at a place of the input
(`Calls`). A call leads to calls further on only, with fuel for as many rounds as there are
characters left (`Calls.fits`), so every call that is reached from the start of a text starts and
ends at positions of the text (`Call.Fits.movesOn`). No place where a value is read is left out: a reader that answers there as that of
values does may answer anything elsewhere (`AnswersFrom.valueFrom_eq`). Main statement: every reader
that is reached is at a position of the text and goes on from there, an error is at a position of
the text too, and blanks in front move the position of an error and change nothing else
(`reached_progresses`).
-/

namespace TypedSettings.Literal

open Text Number

section
variable [Payloads]

/-- A call of a reader, with the characters that are left where it starts. -/
inductive Call where
  | value (levels : Nat) (s : List Char)
  /-- Items up to a closing mark, or members if they have to be hashable. -/
  | items (levels : Nat) (hashed : Bool) (closing : Char) (fuel : Nat) (s : List Char)
  | entry (levels : Nat) (s : List Char)
  | moreEntries (levels fuel : Nat) (s : List Char)
  | named (s : List Char)
  | number (negative : Bool) (s : List Char)
  | digitRun (isDigit : Char → Bool) (mayPause : Bool) (s : List Char)
  | texts (s : List Char)
  | moreTexts (fuel : Nat) (s : List Char)
  | text (s : List Char)
  | textBody (style : TextStyle) (start : List Char) (fuel : Nat) (s : List Char)
  | octalDigits (width n : Nat) (s : List Char)
  | hexDigits (width n : Nat) (s : List Char)

def itemReader (item : ItemReader) (hashed : Bool) : ItemReader :=
  if hashed then fun s => member item s else item

/-- The first call leads to the second, given the answers of those that it leads to before. This may
say more than happens, as where a first member turns out not to be hashable, but never less. -/
inductive Calls : Call → Call → Prop where
  -- a value
  | number {levels : Nat} {s r : List Char} {c : Char} : dropTrivia s = c :: r →
      startsNumber (c :: r) = true → Calls (.value (levels + 1) s) (.number false (c :: r))
  | signed {levels : Nat} {s r : List Char} {c : Char} : dropTrivia s = c :: r → c = '+' ∨ c = '-' →
      startsNumber (dropTrivia r) = true →
      Calls (.value (levels + 1) s) (.number (c == '-') (dropTrivia r))
  | texts {levels : Nat} {s r : List Char} {c : Char} : dropTrivia s = c :: r → isQuote c = true →
      Calls (.value (levels + 1) s) (.texts (c :: r))
  | named {levels : Nat} {s r : List Char} {c : Char} : dropTrivia s = c :: r →
      (isLetter c || c == '_') = true → Calls (.value (levels + 1) s) (.named (c :: r))
  | list {levels : Nat} {s r : List Char} : dropTrivia s = '[' :: r →
      Calls (.value (levels + 1) s) (.items levels false ']' (r.length + 1) r)
  | inParentheses {levels : Nat} {s r : List Char} : dropTrivia s = '(' :: r →
      eat? ')' (dropTrivia r) = none → Calls (.value (levels + 1) s) (.value levels (dropTrivia r))
  | tuple {levels : Nat} {s r a b : List Char} {v : Value} : dropTrivia s = '(' :: r →
      value levels (dropTrivia r) = .ok (v, a) → eat? ',' (dropTrivia a) = some b →
      Calls (.value (levels + 1) s) (.items levels false ')' (b.length + 1) b)
  | inBraces {levels : Nat} {s r : List Char} : dropTrivia s = '\x7b' :: r →
      eat? '\x7d' (dropTrivia r) = none →
      Calls (.value (levels + 1) s) (.value levels (dropTrivia r))
  | set {levels : Nat} {s r a b : List Char} {v : Value} : dropTrivia s = '\x7b' :: r →
      value levels (dropTrivia r) = .ok (v, a) → eat? ',' (dropTrivia a) = some b →
      Calls (.value (levels + 1) s) (.items levels true '\x7d' (b.length + 1) b)
  | firstContent {levels : Nat} {s r a b : List Char} {k : Value} : dropTrivia s = '\x7b' :: r →
      value levels (dropTrivia r) = .ok (k, a) → eat? ':' (dropTrivia a) = some b →
      Calls (.value (levels + 1) s) (.value levels b)
  | map {levels : Nat} {s r a b t : List Char} {k v : Value} : dropTrivia s = '\x7b' :: r →
      value levels (dropTrivia r) = .ok (k, a) → eat? ':' (dropTrivia a) = some b →
      value levels b = .ok (v, t) →
      Calls (.value (levels + 1) s) (.moreEntries levels (t.length + 1) t)
  -- a name: a marked text is read from its mark on
  | marked {s : List Char} : (s.dropWhile isWordChar).head?.any isQuote = true →
      Calls (.named s) (.texts s)
  -- items and members
  | item {levels : Nat} {hashed : Bool} {closing : Char} {fuel : Nat} {s : List Char} :
      eat? closing (dropTrivia s) = none →
      Calls (.items levels hashed closing (fuel + 1) s) (.value levels (dropTrivia s))
  | items {levels : Nat} {hashed : Bool} {closing : Char} {fuel : Nat} {s a b : List Char}
      {v : Value} : itemReader (value levels) hashed (dropTrivia s) = .ok (v, a) →
      eat? ',' (dropTrivia a) = some b →
      Calls (.items levels hashed closing (fuel + 1) s) (.items levels hashed closing fuel b)
  -- entries
  | entry {levels fuel : Nat} {s a : List Char} : eat? ',' (dropTrivia s) = some a →
      eat? '\x7d' (dropTrivia a) = none →
      Calls (.moreEntries levels (fuel + 1) s) (.entry levels (dropTrivia a))
  | moreEntries {levels fuel : Nat} {s a b : List Char} {e : Value × Value} :
      eat? ',' (dropTrivia s) = some a → entry (value levels) (dropTrivia a) = .ok (e, b) →
      Calls (.moreEntries levels (fuel + 1) s) (.moreEntries levels fuel b)
  | key {levels : Nat} {s : List Char} : Calls (.entry levels s) (.value levels s)
  | content {levels : Nat} {s a b : List Char} {k : Value} :
      member (value levels) s = .ok (k, a) → eat? ':' (dropTrivia a) = some b →
      Calls (.entry levels s) (.value levels b)
  -- numbers
  | based {negative : Bool} {s ds : List Char} {base : Nat} : based? s = some (base, ds) →
      Calls (.number negative s) (.digitRun (isDigitOf base) true ds)
  | whole {negative : Bool} {s : List Char} : based? s = none →
      Calls (.number negative s) (.digitRun Char.isDigit false s)
  | fraction {negative : Bool} {s ds r : List Char} : based? s = none →
      digitRun Char.isDigit false s = .ok (ds, '.' :: r) →
      Calls (.number negative s) (.digitRun Char.isDigit false r)
  | exponent {negative : Bool} {s ds a r : List Char} {fraction : Option (List Char)}
      {mark : Char} : based? s = none → digitRun Char.isDigit false s = .ok (ds, a) →
      fractionPart a = .ok (fraction, mark :: r) → mark = 'e' ∨ mark = 'E' →
      Calls (.number negative s) (.digitRun Char.isDigit false (signOf r).2)
  | digit {isDigit : Char → Bool} {mayPause : Bool} {c : Char} {s : List Char} :
      isDigit c = true → Calls (.digitRun isDigit mayPause (c :: s)) (.digitRun isDigit true s)
  | pause {isDigit : Char → Bool} {mayPause : Bool} {s : List Char} :
      Calls (.digitRun isDigit mayPause ('_' :: s)) (.digitRun isDigit false s)
  -- texts
  | firstText {s : List Char} : Calls (.texts s) (.text s)
  | furtherTexts {s cs r : List Char} : text s = .ok (cs, r) →
      Calls (.texts s) (.moreTexts r.length r)
  | nextText {fuel : Nat} {s : List Char} : startsText (dropTrivia s) = true →
      Calls (.moreTexts (fuel + 1) s) (.text (dropTrivia s))
  | moreTexts {fuel : Nat} {s cs r : List Char} : text (dropTrivia s) = .ok (cs, r) →
      Calls (.moreTexts (fuel + 1) s) (.moreTexts fuel r)
  | body {s r : List Char} {raw : Bool} {quote : Char} : textMark s = (raw, quote :: r) →
      isQuote quote = true →
      Calls (.text s) (.textBody ⟨quote, opensTriple quote r, raw⟩ s
        ((if opensTriple quote r then r.drop 2 else r).length + 1)
        (if opensTriple quote r then r.drop 2 else r))
  | character {style : TextStyle} {start s : List Char} {fuel : Nat} {c : Char} :
      dropStart? style.closing (c :: s) = none →
      Calls (.textBody style start (fuel + 1) (c :: s)) (.textBody style start fuel s)
  | escaped {style : TextStyle} {start s cs r : List Char} {fuel : Nat} {c : Char} :
      style.escape c s = .ok (cs, r) →
      Calls (.textBody style start (fuel + 1) ('\\' :: c :: s)) (.textBody style start fuel r)
  | octal {style : TextStyle} {start s : List Char} {fuel : Nat} {c : Char} :
      isDigitOf 8 c = true →
      Calls (.textBody style start (fuel + 1) ('\\' :: c :: s)) (.octalDigits 2 (ofDigits 8 [c]) s)
  | octalDigit {width n : Nat} {c : Char} {s : List Char} : isDigitOf 8 c = true →
      Calls (.octalDigits (width + 1) n (c :: s)) (.octalDigits width (n * 8 + ofDigits 8 [c]) s)
  | hex {style : TextStyle} {start s : List Char} {fuel width : Nat} {c : Char} :
      hexWidth? c = some width →
      Calls (.textBody style start (fuel + 1) ('\\' :: c :: s)) (.hexDigits width 0 s)
  | hexDigit {width n : Nat} {c : Char} {s : List Char} : isDigitOf 16 c = true →
      Calls (.hexDigits (width + 1) n (c :: s)) (.hexDigits width (n * 16 + ofDigits 16 [c]) s)

/-! ## What calls rely on, and what they do -/

namespace Call

/-- The characters that are left where the call starts. -/
def place : Call → List Char
  | value _ s | items _ _ _ _ s | entry _ s | moreEntries _ _ s | named s | number _ s
  | digitRun _ _ s | texts s | moreTexts _ s | text s | textBody _ _ _ s | octalDigits _ _ s
  | hexDigits _ _ s => s

/-- The characters from which on a fault of the call may be placed: the body of a text has faults
at the start of the text. -/
def start : Call → List Char
  | textBody _ start _ _ => start
  | call => call.place

/-- What the reader relies on: fuel for all rounds of a loop, and that a number starts where one is
read. -/
def Ready : Call → Prop
  | items _ _ _ fuel s | moreEntries _ fuel s | textBody _ _ fuel s => s.length < fuel
  | moreTexts fuel s => s.length ≤ fuel
  | number _ s => startsNumber s = true
  | _ => True

/-- What the call answers: the reader stays inside the characters that are left, and what is not
only a part of a display or a token takes at least one of them. -/
def Progresses : Call → Prop
  | value levels s => (Literal.value levels s).AdvancesIn Shows s
  | items levels hashed closing fuel s =>
    (Literal.items (itemReader (Literal.value levels) hashed) closing fuel s).StaysIn Shows s
  | entry levels s => (Literal.entry (Literal.value levels) s).AdvancesIn Shows s
  | moreEntries levels fuel s =>
    (Literal.moreEntries (Literal.value levels) fuel s).StaysIn Shows s
  | named s => (Literal.named s).AdvancesIn Shows s
  | number negative s => (Literal.number negative s).AdvancesIn Shows s
  | digitRun isDigit mayPause s => (Literal.digitRun isDigit mayPause s).StaysIn Shows s
  | texts s => (Literal.texts s).AdvancesIn Shows s
  | moreTexts fuel s => (Literal.moreTexts fuel s).StaysIn Shows s
  | text s => (Literal.text s).AdvancesIn Shows s
  | textBody style start fuel s => (Literal.textBody style start fuel s).StaysIn Shows start
  | octalDigits width n s => (Literal.octalDigits width n s).2 <:+ s
  | hexDigits width n s => (Literal.hexDigits width n s).StaysIn Shows s

/-- The characters that are left behind what the call reads, if it reads something. -/
def rest? : Call → Option (List Char)
  | value levels s => (Literal.value levels s).rest?
  | items levels hashed closing fuel s =>
    (Literal.items (itemReader (Literal.value levels) hashed) closing fuel s).rest?
  | entry levels s => (Literal.entry (Literal.value levels) s).rest?
  | moreEntries levels fuel s => (Literal.moreEntries (Literal.value levels) fuel s).rest?
  | named s => (Literal.named s).rest?
  | number negative s => (Literal.number negative s).rest?
  | digitRun isDigit mayPause s => (Literal.digitRun isDigit mayPause s).rest?
  | texts s => (Literal.texts s).rest?
  | moreTexts fuel s => (Literal.moreTexts fuel s).rest?
  | text s => (Literal.text s).rest?
  | textBody style start fuel s => (Literal.textBody style start fuel s).rest?
  | octalDigits width n s => some (Literal.octalDigits width n s).2
  | hexDigits width n s => (Literal.hexDigits width n s).rest?

/-- What the call reads is more than a part of a display or a token. -/
def Takes : Call → Prop
  | value _ _ | entry _ _ | named _ | number _ _ | texts _ | text _ => True
  | _ => False

/-- The call starts and ends at positions of the input. Ahead of it is what the input has there, and
it ends no earlier than it starts, and later if it takes anything. -/
def MovesOn (input : List Char) (call : Call) : Prop :=
  ∃ position, LeftAt input position call.place ∧ ∀ r ∈ call.rest?, ∃ ending,
    LeftAt input ending r ∧ position ≤ ending ∧ (call.Takes → position < ending)

/-- The call is inside the input, with all that it relies on. -/
structure Fits (input : List Char) (call : Call) : Prop where
  place_suffix : call.place <:+ call.start
  start_suffix : call.start <:+ input
  ready : call.Ready

end Call

section
variable {levels : Nat} {hashed : Bool} {s : List Char} {c d : Call} {input : List Char}

theorem advancesIn_itemReader (levels : Nat) (hashed : Bool) (s : List Char) :
    (itemReader (value levels) hashed s).AdvancesIn Shows s := by
  unfold itemReader
  split
  · exact advancesIn_member (advancesIn_value levels) s
  · exact advancesIn_value levels s

/-- A call with what it relies on answers as it should. -/
theorem Call.Fits.progresses (h : c.Fits input) : c.Progresses := by
  cases c with
  | value levels s => exact advancesIn_value levels s
  | items levels hashed closing fuel s =>
    exact staysIn_items (fun s => (advancesIn_itemReader levels hashed s).staysIn) closing fuel
      h.ready
  | entry levels s => exact advancesIn_entry (advancesIn_value levels) s
  | moreEntries levels fuel s => exact staysIn_moreEntries (advancesIn_value levels) fuel h.ready
  | named s => exact advancesIn_named s
  | number negative s => exact advancesIn_number h.ready
  | digitRun isDigit mayPause s => exact staysIn_digitRun isDigit mayPause s
  | texts s => exact advancesIn_texts s
  | moreTexts fuel s => exact staysIn_moreTexts fuel s
  | text s => exact advancesIn_text s
  | textBody style start fuel s => exact staysIn_textBody style fuel h.place_suffix
  | octalDigits width n s => exact octalDigits_suffix width n s
  | hexDigits width n s => exact staysIn_hexDigits width n s

theorem Call.Fits.of_mem_rest? (h : c.Fits input) {r : List Char} (hr : r ∈ c.rest?) :
    r <:+ c.place ∧ (c.Takes → r.length < c.place.length) := by
  have hprogresses := h.progresses
  cases c with
  | value | entry | named | number | texts | text =>
    obtain ⟨hsuffix, hlt⟩ := Step.AdvancesIn.of_mem_rest? hprogresses hr
    exact ⟨hsuffix, fun _ => hlt⟩
  | textBody style start fuel s =>
    obtain ⟨cs, hbody⟩ := Step.mem_rest?_iff.1 hr
    exact ⟨textBody_suffix hbody, False.elim⟩
  | octalDigits width n s =>
    cases hr
    exact ⟨hprogresses, False.elim⟩
  | _ => exact ⟨Step.StaysIn.of_mem_rest? hprogresses hr, False.elim⟩

theorem Call.Fits.movesOn (h : c.Fits input) : c.MovesOn input := by
  have hplace := h.place_suffix.trans h.start_suffix
  refine ⟨_, leftAt_of_suffix hplace, fun r hr => ?_⟩
  obtain ⟨hsuffix, hlt⟩ := h.of_mem_rest? hr
  obtain ⟨ending, hleft, hle, hends⟩ := exists_leftAt hplace hsuffix
  exact ⟨ending, hleft, hle, fun htakes => hends (hlt htakes)⟩

/-! ## One call after the other -/

omit [Payloads] in
theorem suffix_of_dropTrivia {r : List Char} {x : Char} (h : dropTrivia s = x :: r) : r <:+ s :=
  (List.suffix_cons ..).trans (h ▸ dropTrivia_suffix s)

/-- A call leads to calls further on. -/
theorem Calls.place_suffix (h : Calls c d) : d.place <:+ c.place := by
  have first : ∀ {s r : List Char} {x : Char}, dropTrivia s = x :: r → x :: r <:+ s :=
    fun h => h ▸ dropTrivia_suffix _
  have behind : ∀ {levels : Nat} {s r a : List Char} {x : Char} {v : Value},
      dropTrivia s = x :: r → Literal.value levels (dropTrivia r) = .ok (v, a) → a <:+ s :=
    fun h hv => ((advancesIn_value ..).staysIn.suffix hv).trans
      ((dropTrivia_suffix _).trans (suffix_of_dropTrivia h))
  cases h with
  | number h _ => exact first h
  | signed h _ _ => exact (dropTrivia_suffix _).trans (suffix_of_dropTrivia h)
  | texts h _ => exact first h
  | named h _ => exact first h
  | list h => exact suffix_of_dropTrivia h
  | inParentheses h _ => exact (dropTrivia_suffix _).trans (suffix_of_dropTrivia h)
  | tuple h hv hcomma => exact rest_suffix hcomma (behind h hv)
  | inBraces h _ => exact (dropTrivia_suffix _).trans (suffix_of_dropTrivia h)
  | set h hv hcomma => exact rest_suffix hcomma (behind h hv)
  | firstContent h hk hcolon => exact rest_suffix hcolon (behind h hk)
  | map h hk hcolon hv =>
    exact ((advancesIn_value ..).staysIn.suffix hv).trans (rest_suffix hcolon (behind h hk))
  | marked _ => exact List.suffix_rfl
  | item _ => exact dropTrivia_suffix _
  | items hv hcomma =>
    exact rest_suffix hcomma
      (((advancesIn_itemReader ..).staysIn.suffix hv).trans (dropTrivia_suffix _))
  | entry hcomma _ => exact (dropTrivia_suffix _).trans (rest_suffix hcomma List.suffix_rfl)
  | moreEntries hcomma he =>
    exact ((advancesIn_entry (advancesIn_value _) _).staysIn.suffix he).trans
      ((dropTrivia_suffix _).trans (rest_suffix hcomma List.suffix_rfl))
  | key => exact List.suffix_rfl
  | content hk hcolon =>
    exact rest_suffix hcolon ((advancesIn_member (advancesIn_value _) _).staysIn.suffix hk)
  | based h => exact based?_suffix h
  | whole _ => exact List.suffix_rfl
  | fraction _ hw => exact (List.suffix_cons ..).trans (digitRun_suffix hw)
  | exponent _ hw hf _ =>
    exact (signOf_suffix _).trans ((List.suffix_cons ..).trans
      ((fractionPart_suffix hf).trans (digitRun_suffix hw)))
  | digit _ => exact List.suffix_cons ..
  | pause => exact List.suffix_cons ..
  | firstText => exact List.suffix_rfl
  | furtherTexts ht => exact text_suffix ht
  | nextText _ => exact dropTrivia_suffix _
  | moreTexts ht => exact (text_suffix ht).trans (dropTrivia_suffix _)
  | @body s r _ _ hm _ =>
    have hmark := textMark_suffix s
    rw [hm] at hmark
    refine .trans ?_ ((List.suffix_cons ..).trans hmark)
    simp only [Call.place]
    split
    · exact List.drop_suffix ..
    · exact List.suffix_rfl
  | character _ => exact List.suffix_cons ..
  | escaped h =>
    exact ((staysIn_escape ..).suffix h).trans ((List.suffix_cons ..).trans (List.suffix_cons ..))
  | octal _ => exact (List.suffix_cons ..).trans (List.suffix_cons ..)
  | octalDigit _ => exact List.suffix_cons ..
  | hex _ => exact (List.suffix_cons ..).trans (List.suffix_cons ..)
  | hexDigit _ => exact List.suffix_cons ..

/-- A call leads to calls with what they rely on, a loop with less fuel to fewer characters. -/
theorem Calls.ready (h : Calls c d) (hc : c.Ready) : d.Ready := by
  cases h with
  | number _ hs => exact hs
  | signed _ _ hs => exact hs
  | list _ => exact Nat.lt_succ_self _
  | tuple _ _ _ => exact Nat.lt_succ_self _
  | set _ _ _ => exact Nat.lt_succ_self _
  | map _ _ _ _ => exact Nat.lt_succ_self _
  | items hv hcomma =>
    exact length_lt_of_eat? hcomma
      (((advancesIn_itemReader ..).staysIn.suffix hv).trans (dropTrivia_suffix _)) hc
  | moreEntries hcomma he =>
    refine Nat.lt_of_le_of_lt ?_ (length_lt_of_eat? hcomma List.suffix_rfl hc)
    exact (((advancesIn_entry (advancesIn_value _) _).staysIn.suffix he).trans
      (dropTrivia_suffix _)).length_le
  | furtherTexts _ => exact Nat.le_refl _
  | @moreTexts _ s _ _ ht =>
    have hlt := Nat.lt_of_lt_of_le (length_lt_of_text ht) (length_dropTrivia_le s)
    exact Nat.le_of_lt_succ (Nat.lt_of_lt_of_le hlt hc)
  | body _ _ => exact Nat.lt_succ_self _
  | character _ => exact Nat.lt_of_succ_lt_succ hc
  | escaped h =>
    have hle := ((staysIn_escape ..).suffix h).length_le
    simp only [Call.Ready, List.length_cons] at hc ⊢
    omega
  | _ => trivial

/-- Faults of the calls that a call leads to are placed where its own may be. -/
theorem Calls.start_suffix (h : Calls c d) (hc : c.place <:+ c.start) :
    d.place <:+ d.start ∧ d.start <:+ c.start := by
  have hplace := h.place_suffix
  cases h with
  | body _ _ => exact ⟨hplace, List.suffix_rfl⟩
  | character _ => exact ⟨hplace.trans hc, List.suffix_rfl⟩
  | escaped _ => exact ⟨hplace.trans hc, List.suffix_rfl⟩
  | _ => exact ⟨List.suffix_rfl, hplace.trans hc⟩

/-- A call that fits leads to calls that fit. -/
theorem Calls.fits (h : Calls c d) (hc : c.Fits input) : d.Fits input where
  place_suffix := (h.start_suffix hc.place_suffix).1
  start_suffix := (h.start_suffix hc.place_suffix).2.trans hc.start_suffix
  ready := h.ready hc.ready

end

/-! ## No other calls -/

/-- The reader answers as the reader of values does at every place where the call leads to that. -/
def AnswersFrom (call : Call) (levels : Nat) (item : ItemReader) : Prop :=
  ∀ s, Relation.ReflTransGen Calls call (.value levels s) → item s = value levels s

section
variable {levels fuel : Nat} {item : ItemReader} {s r : List Char} {c d : Call}

theorem AnswersFrom.of_calls (h : AnswersFrom c levels item) (hcalls : Calls c d) :
    AnswersFrom d levels item :=
  fun s hs => h s (hs.head hcalls)

theorem AnswersFrom.eq (h : AnswersFrom c levels item) (hcalls : Calls c (.value levels s)) :
    item s = value levels s :=
  h s (.single hcalls)

theorem member_congr (h : item s = value levels s) : member item s = member (value levels) s := by
  unfold member
  rw [h]

theorem AnswersFrom.itemReader {hashed : Bool} (h : AnswersFrom c levels item)
    (hcalls : Calls c (.value levels s)) :
    itemReader item hashed s = itemReader (value levels) hashed s := by
  cases hashed with
  | false => exact h.eq hcalls
  | true => exact member_congr (h.eq hcalls)

theorem AnswersFrom.items {hashed : Bool} {closing : Char}
    (h : AnswersFrom (.items levels hashed closing fuel s) levels item) :
    items (Literal.itemReader item hashed) closing fuel s =
      items (Literal.itemReader (value levels) hashed) closing fuel s := by
  -- the answer for one item decides whether and where the next round starts
  induction fuel generalizing s with
  | zero => rfl
  | succ fuel ih =>
    rw [Literal.items, Literal.items]
    cases hclosing : eat? closing (dropTrivia s) with
    | some r => rfl
    | none =>
      simp only [h.itemReader (.item hclosing)]
      refine Step.next_congr fun v a hv => ?_
      cases hcomma : eat? ',' (dropTrivia a) with
      | none => rfl
      | some b => simp only [ih (h.of_calls (.items hv hcomma))]

theorem AnswersFrom.entry (h : AnswersFrom (.entry levels s) levels item) :
    entry item s = entry (value levels) s := by
  unfold Literal.entry
  rw [member_congr (h.eq .key)]
  refine Step.next_congr fun k a hk => ?_
  cases hcolon : eat? ':' (dropTrivia a) with
  | none => rfl
  | some b => simp only [h.eq (.content hk hcolon)]

theorem AnswersFrom.moreEntries (h : AnswersFrom (.moreEntries levels fuel s) levels item) :
    moreEntries item fuel s = moreEntries (value levels) fuel s := by
  induction fuel generalizing s with
  | zero => rfl
  | succ fuel ih =>
    rw [Literal.moreEntries, Literal.moreEntries]
    cases eat? '\x7d' (dropTrivia s) with
    | some r => rfl
    | none =>
      cases hcomma : eat? ',' (dropTrivia s) with
      | none => rfl
      | some a =>
        cases hclosing : eat? '\x7d' (dropTrivia a) with
        | some r => simp only [hclosing]
        | none =>
          simp only [hclosing, (h.of_calls (.entry hcomma hclosing)).entry]
          refine Step.next_congr fun e b he => ?_
          rw [ih (h.of_calls (.moreEntries hcomma he))]

theorem AnswersFrom.bracketed (h : AnswersFrom (.value (levels + 1) s) levels item)
    (hs : dropTrivia s = '[' :: r) : bracketed item r = bracketed (value levels) r := by
  have hitems : Literal.items item ']' (r.length + 1) r =
      Literal.items (value levels) ']' (r.length + 1) r := (h.of_calls (.list hs)).items
  unfold Literal.bracketed
  rw [hitems]

theorem AnswersFrom.parenthesized (h : AnswersFrom (.value (levels + 1) s) levels item)
    (hs : dropTrivia s = '(' :: r) : parenthesized item r = parenthesized (value levels) r := by
  unfold Literal.parenthesized
  cases hclosing : eat? ')' (dropTrivia r) with
  | some a => rfl
  | none =>
    simp only [h.eq (.inParentheses hs hclosing)]
    refine Step.next_congr fun v a hv => ?_
    cases eat? ')' (dropTrivia a) with
    | some b => rfl
    | none =>
      cases hcomma : eat? ',' (dropTrivia a) with
      | none => rfl
      | some b =>
        have hitems : Literal.items item ')' (b.length + 1) b =
            Literal.items (value levels) ')' (b.length + 1) b :=
          (h.of_calls (.tuple hs hv hcomma)).items
        simp only [hitems]

theorem AnswersFrom.mapAfter {a b : List Char} {k : Value}
    (h : AnswersFrom (.value (levels + 1) s) levels item) (hs : dropTrivia s = '\x7b' :: r)
    (hk : value levels (dropTrivia r) = .ok (k, a)) (hcolon : eat? ':' (dropTrivia a) = some b) :
    mapAfter item k b = mapAfter (value levels) k b := by
  unfold Literal.mapAfter
  rw [h.eq (.firstContent hs hk hcolon)]
  refine Step.next_congr fun v t hv => ?_
  rw [(h.of_calls (.map hs hk hcolon hv)).moreEntries]

theorem AnswersFrom.setAfter {a : List Char} {v : Value}
    (h : AnswersFrom (.value (levels + 1) s) levels item) (hs : dropTrivia s = '\x7b' :: r)
    (hv : value levels (dropTrivia r) = .ok (v, a)) :
    setAfter item v a = setAfter (value levels) v a := by
  unfold Literal.setAfter
  cases eat? '\x7d' (dropTrivia a) with
  | some b => rfl
  | none =>
    cases hcomma : eat? ',' (dropTrivia a) with
    | none => rfl
    | some b =>
      have hmembers : moreMembers item (b.length + 1) b =
          moreMembers (value levels) (b.length + 1) b := (h.of_calls (.set hs hv hcomma)).items
      simp only [hmembers]

theorem AnswersFrom.braced (h : AnswersFrom (.value (levels + 1) s) levels item)
    (hs : dropTrivia s = '\x7b' :: r) : braced item r = braced (value levels) r := by
  unfold Literal.braced
  cases hclosing : eat? '\x7d' (dropTrivia r) with
  | some a => rfl
  | none =>
    simp only [h.eq (.inBraces hs hclosing)]
    refine Step.next_congr fun v a hv => ?_
    cases hcolon : eat? ':' (dropTrivia a) with
    | none => simp only [h.setAfter hs hv]
    | some b => simp only [h.mapAfter hs hv hcolon]

/-- Whatever reads the items of a value, its answers count only where a call leads to a value one
level deeper. -/
theorem AnswersFrom.valueFrom_eq {x : Char} (h : AnswersFrom (.value (levels + 1) s) levels item)
    (hs : dropTrivia s = x :: r) : valueFrom item x r = value (levels + 1) s := by
  have hvalue : value (levels + 1) s = Literal.valueFrom (value levels) x r := by rw [value, hs]
  have hlist (hx : x = '[') : Literal.bracketed item r = Literal.bracketed (value levels) r :=
    h.bracketed (hx ▸ hs)
  have htuple (hx : x = '(') :
      Literal.parenthesized item r = Literal.parenthesized (value levels) r :=
    h.parenthesized (hx ▸ hs)
  have hbrace (hx : x = '\x7b') : Literal.braced item r = Literal.braced (value levels) r :=
    h.braced (hx ▸ hs)
  rw [hvalue]
  unfold Literal.valueFrom
  simp +contextual only [hlist, htuple, hbrace]

end

/-! ## Whole texts -/

/-- The calls that reading a text comes to. -/
def Reached (raw : String) (call : Call) : Prop :=
  Relation.ReflTransGen Calls (.value (maxDepth + 1) (dropIndent raw.toList)) call

omit [Payloads] in
theorem dropIndent_suffix (s : List Char) : dropIndent s <:+ s := List.dropWhile_suffix _

/-- Every call that is reached fits. -/
theorem Reached.fits {raw : String} {call : Call} (h : Reached raw call) :
    call.Fits raw.toList := by
  induction h with
  | refl => exact ⟨List.suffix_rfl, dropIndent_suffix _, trivial⟩
  | tail _ hcalls ih => exact hcalls.fits ih

theorem whole_fault {s : List Char} {f : Fault Char Cause} (h : whole s = .error f) :
    f.left <:+ s ∧ Shows f := by
  unfold whole at h
  split at h
  · rename_i hv
    cases h
    exact (advancesIn_value ..).staysIn.fault hv
  · rename_i v r hv
    split at h
    · cases h
    · cases h
      exact ⟨(dropTrivia_suffix r).trans ((advancesIn_value ..).staysIn.suffix hv), trivial⟩

omit [Payloads] in
/-- A fault inside the input is an error at its place. -/
theorem drop_position {input : List Char} {f : Fault Char Cause} (h : f.left <:+ input) :
    input.drop (Error.ofFault input f).position = f.left :=
  (List.suffix_iff_eq_drop.1 h).symm

theorem shows_of_parse {raw : String} {e : Error} (h : parse raw = .error e) :
    Shows ⟨e.cause, raw.toList.drop e.position⟩ := by
  unfold parse at h
  split at h
  · cases h
  · rename_i f hf
    cases h
    obtain ⟨hsuffix, hshows⟩ := whole_fault hf
    rw [drop_position (hsuffix.trans (dropIndent_suffix _))]
    exact hshows

omit [Payloads] in
theorem dropIndent_append {w : List Char} (hw : ∀ c ∈ w, c = ' ' ∨ c = '\t') (s : List Char) :
    dropIndent (w ++ s) = dropIndent s := by
  induction w with
  | nil => rfl
  | cons c w ih =>
    obtain ⟨hc, hw⟩ := List.forall_mem_cons.1 hw
    have hdrop : dropIndent (c :: (w ++ s)) = dropIndent (w ++ s) :=
      List.dropWhile_cons_of_pos (by rcases hc with rfl | rfl <;> decide)
    rw [List.cons_append, hdrop, ih hw]

/-- Spaces and tabs in front of a text move its error by their number. -/
theorem parse_indent {w : List Char} (hw : ∀ c ∈ w, c = ' ' ∨ c = '\t') (raw : String) :
    parse (String.ofList w ++ raw) =
      (parse raw).mapError fun e => ⟨e.cause, e.position + w.length⟩ := by
  rw [parse, String.toList_append, String.toList_ofList, dropIndent_append hw, parse]
  cases h : whole (dropIndent raw.toList) with
  | ok v => rfl
  | error f =>
    have hle := ((whole_fault h).1.trans (dropIndent_suffix _)).length_le
    have hposition : (Error.ofFault (w ++ raw.toList) f).position =
        (Error.ofFault raw.toList f).position + w.length := by
      simp only [Error.ofFault, List.length_append]
      omega
    exact congrArg (fun position => Except.error (Error.mk f.cause position)) hposition

/-- Reading stays inside the text: a value is read only where the calls lead; every reader is called
at a position in the text, with fuel for all rounds of a loop, and ends at one that is no less, and
greater if it reads a value, a number, a name or a text; an error is at a position in it, where what
the error names stands; and spaces and tabs in front move the error by their number. -/
theorem reached_progresses (raw : String) :
    (∀ levels s x r item, dropTrivia s = x :: r → AnswersFrom (.value (levels + 1) s) levels item →
      valueFrom item x r = value (levels + 1) s) ∧
    (∀ call, Reached raw call → call.MovesOn raw.toList ∧ call.Ready ∧ call.Progresses) ∧
    (∀ e, parse raw = .error e → e.position ≤ raw.toList.length ∧
      Shows ⟨e.cause, raw.toList.drop e.position⟩) ∧
    ∀ w, (∀ c ∈ w, c = ' ' ∨ c = '\t') → parse (String.ofList w ++ raw) =
      (parse raw).mapError fun e => ⟨e.cause, e.position + w.length⟩ := by
  refine ⟨fun levels s x r item hs h => h.valueFrom_eq hs, fun call h => ?_,
    fun e h => ⟨parse_error_position h, shows_of_parse h⟩, fun w hw => parse_indent hw raw⟩
  exact ⟨h.fits.movesOn, h.fits.ready, h.fits.progresses⟩

end

open Payloads.Integers

/-- Reads values where at most eight characters are left. -/
def readNearEnd (s : List Char) : Step Value :=
  if s.length ≤ 8 then value maxDepth s else .error ⟨.tooDeep, s⟩

/-- A number with a sign as the first item of a list, and a name as the second one. -/
theorem reached_progresses_signed :
    (AnswersFrom (.value (maxDepth + 1) "[-1, x]".toList) maxDepth readNearEnd ∧
      valueFrom readNearEnd '[' "-1, x]".toList = value (maxDepth + 1) "[-1, x]".toList) ∧
    (Reached "\t[-1, x]" (.number true ['1', ',', ' ', 'x', ']']) ∧
      (Call.number true ['1', ',', ' ', 'x', ']']).MovesOn "\t[-1, x]".toList ∧
      startsNumber ['1', ',', ' ', 'x', ']'] = true ∧
      (number true ['1', ',', ' ', 'x', ']']).AdvancesIn Shows ['1', ',', ' ', 'x', ']']) ∧
    (parse "\t[-1, x]" = .error ⟨.unknownName "x", 6⟩ ∧ 6 ≤ "\t[-1, x]".toList.length ∧
      Shows ⟨.unknownName "x", "\t[-1, x]".toList.drop 6⟩) ∧
    (∀ c ∈ [' ', '\t'], c = ' ' ∨ c = '\t') ∧
      parse (String.ofList [' ', '\t'] ++ "\t[-1, x]") =
        (parse "\t[-1, x]").mapError fun e => ⟨e.cause, e.position + 2⟩ := by
  obtain ⟨hvalue, hcalls, herror, hindent⟩ := reached_progresses "\t[-1, x]"
  have hanswers : AnswersFrom (.value (maxDepth + 1) "[-1, x]".toList) maxDepth readNearEnd := by
    intro s hs
    obtain ⟨⟨position, hleft, -⟩, -⟩ := hcalls (.value maxDepth s) hs
    have hplace : s = "\t[-1, x]".toList.drop position := hleft.eq_drop
    refine if_pos ?_
    rw [hplace, List.length_drop]
    exact Nat.sub_le 8 position
  have hreached : Reached "\t[-1, x]" (.number true ['1', ',', ' ', 'x', ']']) := by
    have hlist : Calls (.value (maxDepth + 1) (dropIndent "\t[-1, x]".toList))
        (.items maxDepth false ']' 7 ['-', '1', ',', ' ', 'x', ']']) :=
      .list (r := ['-', '1', ',', ' ', 'x', ']']) rfl
    have hitem : Calls (.items maxDepth false ']' 7 ['-', '1', ',', ' ', 'x', ']'])
        (.value maxDepth ['-', '1', ',', ' ', 'x', ']']) := .item rfl
    have hsigned : Calls (.value maxDepth ['-', '1', ',', ' ', 'x', ']'])
        (.number true ['1', ',', ' ', 'x', ']']) :=
      .signed (c := '-') (r := ['1', ',', ' ', 'x', ']']) rfl (.inr rfl) rfl
    exact ((Relation.ReflTransGen.single hlist).tail hitem).tail hsigned
  have hparse : parse "\t[-1, x]" = .error ⟨.unknownName "x", 6⟩ := rfl
  have hblanks : ∀ c ∈ [' ', '\t'], c = ' ' ∨ c = '\t' := by simp
  exact ⟨⟨hanswers, hvalue _ _ _ _ _ rfl hanswers⟩, ⟨hreached, hcalls _ hreached⟩,
    ⟨hparse, herror _ hparse⟩, hblanks, hindent _ hblanks⟩

end TypedSettings.Literal
