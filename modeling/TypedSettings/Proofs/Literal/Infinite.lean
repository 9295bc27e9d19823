import TypedSettings.Proofs.Literal.RoundTrip
import TypedSettings.Proofs.Number.ReadBack
import TypedSettings.Proofs.Value.Starts

/-!
# Infinite floats are written, but not read

The text of an infinite float is a word that is no literal, and no container whose text has it
inside is read: an item before it is read as what it is, up to the mark behind it
(`everywhere_of_items`), so that the reader arrives at the word. Main statement: what was read can
be read from its text exactly if no float in it is infinite, and is then read back as it is
(`parse_render_eq_ok_iff`), given that the texts of its finite floats read back.
-/

namespace TypedSettings.Literal

open Text Number Value

section
variable [Payloads]

def NotInfinite (v : Value) : Prop := ∀ x ∈ v.float?, ¬ IsInfinite x

/-- What was read and holds no infinite float is printed so that it reads back. -/
theorem everywhere_isPrintable {v : Value} (hv : v.Everywhere IsRead)
    (hi : v.Everywhere NotInfinite) : v.Everywhere IsPrintable :=
  (hv.and hi).imp fun _ hw => ⟨hw.1.literal, fun x hx =>
    have hfinite := (hw.1.number x hx).isFinite (hw.2 x hx)
    ⟨hfinite, readFloat_text rfl hfinite⟩⟩

theorem starts_of_isRead {v : Value} (hv : v.Everywhere IsRead) : Starts v.chars := by
  refine starts_chars fun c hc => ?_
  have hkind := hv.self.literal.kind
  rw [hc] at hkind
  exact hkind

end

/-! ## Where reading goes on -/

section
variable [Payloads]

variable {d : Nat} {s a b r : List Char} {u v : Value}

omit [Payloads] in
theorem Ends.follows (h : Ends r) : Follows r := by
  cases r with
  | nil => simp [Follows, dropTrivia]
  | cons c r =>
    have hc := h c rfl
    rw [Follows, dropTrivia_of_noTrivia (noTrivia_cons (isBlank_of_isDelimiter hc).1
      (isBlank_of_isDelimiter hc).2)]
    exact h

/-- What follows a value is read in one way only. -/
theorem Expr.unique (hu : Expr d s u a) (ha : Follows a) (hv : Expr d s v b) (hb : Follows b) :
    u = v ∧ a = b := by
  have hd := (expr_iff.1 hu).1
  have h := recognizes_value (maxDepth + 1 - d) (d := d) (by omega)
  have heq := (h.complete (h.skips.2 hu) ha).symm.trans (h.complete (h.skips.2 hv) hb)
  cases heq
  exact ⟨rfl, rfl⟩

theorem Expr.of_blank (h : Expr d (' ' :: s) v r) : Expr d s v r := by
  rw [← expr_dropTrivia] at h ⊢
  rwa [← (Trivia.blank (by decide) (.done s) : Trivia (' ' :: s) s).dropTrivia_eq]

omit [Payloads] in
theorem opens_of_starts (h : Starts s) : Opens s := by
  obtain ⟨c, r, rfl, hc⟩ := h
  refine ⟨c, r, rfl, ?_⟩
  rcases hc with hc | hc
  · exact isBlank_of_isDigit hc
  · have marks : (startMarks.all fun c => !isBlank c && c != '#' && !isDelimiter c) = true := by
      decide
    simpa [and_assoc] using List.all_eq_true.1 marks c hc

omit [Payloads] in
theorem not_mark_of_starts (h : Starts s) {c : Char} (hc : isDelimiter c = true) :
    ¬ Mark c s r := by
  intro hm
  have hs := opens_of_starts h
  rw [mark_iff (isBlank_of_isDelimiter hc), dropTrivia_of_noTrivia hs.noTrivia] at hm
  obtain ⟨c', t, rfl, _, _, hd⟩ := hs
  cases hm
  rw [hc] at hd
  cases hd

omit [Payloads] in
/-- A delimiter stands right where it is. -/
theorem Mark.eq_of_cons {c e : Char} (he : isDelimiter e = true) (hc : isDelimiter c = true)
    (h : Mark c (e :: s) r) : c = e ∧ r = s := by
  have he := isBlank_of_isDelimiter he
  rw [mark_iff (isBlank_of_isDelimiter hc),
    dropTrivia_of_noTrivia (noTrivia_cons he.1 he.2)] at h
  cases h
  exact ⟨rfl, rfl⟩

end

/-! ## Items -/

section
variable {α β : Type} {item : Writes β} {write : α → List Char} {closing closing' : Char}
  {s r r' : List Char} {xs : List α} {ys : List β}

theorem Items.of_blank (hc : isDelimiter closing = true)
    (hskip : ∀ {s y r}, item (' ' :: s) y r → item s y r)
    (h : Items item closing (' ' :: s) ys r) : Items item closing s ys r := by
  have hmark : ∀ {t}, Mark closing (' ' :: s) t → Mark closing s t := by
    intro t ht
    have hc := isBlank_of_isDelimiter hc
    rw [mark_iff hc] at ht ⊢
    rwa [← (Trivia.blank (by decide) (.done s) : Trivia (' ' :: s) s).dropTrivia_eq]
  cases h with
  | none hm => exact .none (hmark hm)
  | last hy hm => exact .last (hskip hy) hm
  | more hy hm hrest => exact .more (hskip hy) hm hrest

/-- Items that do not close at once start with an item, and a mark stands behind it. -/
theorem Items.first (h : Items item closing s ys r) (hs : Starts s)
    (hc : isDelimiter closing = true) :
    ∃ y a c b, item s y a ∧ Mark c a b ∧ (c = ',' ∨ c = closing) := by
  cases h with
  | none hm => exact absurd hm (not_mark_of_starts hs hc)
  | last hy hm => exact ⟨_, _, _, _, hy, hm, .inr rfl⟩
  | more hy hm _ => exact ⟨_, _, _, _, hy, hm, .inl rfl⟩

/-- The first of printed items, and what stands behind it. -/
theorem commaSeparated_cons (write : α → List Char) (x : α) (xs : List α) (closing : Char)
    (r : List Char) :
    ∃ c t, commaSeparated ((x :: xs).map write) ++ closing :: r = write x ++ c :: t ∧
      (xs = [] ∧ c = closing ∨
        c = ',' ∧ t = ' ' :: (commaSeparated (xs.map write) ++ closing :: r)) := by
  cases xs with
  | nil => exact ⟨closing, r, by simp [commaSeparated, List.intercalate], .inl ⟨rfl, rfl⟩⟩
  | cons y ys =>
    exact ⟨',', _, by simp [commaSeparated, comma, List.intercalate], .inr ⟨rfl, rfl⟩⟩

/-- Where printed items are read, every one of them is, if reading one goes no further than its
text. -/
theorem everywhere_of_items {good : α → Prop} (hc : isDelimiter closing = true)
    (hc' : isDelimiter closing' = true) (hcomma : closing' ≠ ',')
    (hskip : ∀ {s y r}, item (' ' :: s) y r → item s y r)
    (hstarts : ∀ x ∈ xs, Starts (write x))
    (hitem : ∀ x ∈ xs, ∀ {r y a}, Ends r → item (write x ++ r) y a → Follows a →
      good x ∧ a = r)
    (h : Items item closing' (commaSeparated (xs.map write) ++ closing :: r) ys r') :
    ∀ x ∈ xs, good x := by
  induction xs generalizing ys with
  | nil => exact fun x hx => absurd hx List.not_mem_nil
  | cons x xs ih =>
    -- behind the printed item stands a comma, or the closing mark if it is the last
    obtain ⟨c, t, heq, hct⟩ := commaSeparated_cons write x xs closing r
    have hends : isDelimiter c = true := by
      rcases hct with ⟨_, rfl⟩ | ⟨rfl, _⟩
      · exact hc
      · decide
    rw [heq] at h
    have hfirst : ∀ {y a}, item (write x ++ c :: t) y a → Follows a → good x ∧ a = c :: t :=
      hitem x List.mem_cons_self (ends_cons hends)
    cases h with
    | none hm =>
      exact absurd hm (not_mark_of_starts ((hstarts x List.mem_cons_self).append _) hc')
    | last hy hm =>
      obtain ⟨hgood, rfl⟩ := hfirst hy (hm.follows hc')
      obtain ⟨rfl, _⟩ := hm.eq_of_cons hends hc'
      rcases hct with ⟨rfl, _⟩ | ⟨hcc, _⟩
      · intro y hy
        rw [List.mem_singleton.1 hy]
        exact hgood
      · exact absurd hcc hcomma
    | more hy hm hrest =>
      obtain ⟨hgood, rfl⟩ := hfirst hy (hm.follows (by decide))
      obtain ⟨hcc, rfl⟩ := hm.eq_of_cons hends (by decide)
      intro z hz
      rcases List.mem_cons.1 hz with rfl | hz
      · exact hgood
      · rcases hct with ⟨rfl, _⟩ | ⟨_, rfl⟩
        · cases hz
        · exact ih (fun w hw => hstarts w (List.mem_cons_of_mem _ hw))
            (fun w hw => hitem w (List.mem_cons_of_mem _ hw)) (hrest.of_blank hc' hskip) z hz

end

/-! ## How forms start -/

section
variable [Payloads]

/-- What stands behind an opening bracket: items, or entries behind a brace. -/
def Inside (item : Writes Value) (c : Char) (s r : List Char) : Prop :=
  ∃ closing, isDelimiter closing = true ∧ closing ≠ ',' ∧ closing ≠ ':' ∧
    ((∃ vs, Items item closing s vs r) ∨ c = '\x7b' ∧ ∃ es, Items (Entry item) closing s es r)

/-- How a form starts: as a number does, perhaps behind a sign, as a text does, as a name does, or
with an opening bracket. -/
inductive Beginning (item : Writes Value) (c : Char) (s r : List Char) : Prop where
  | number : startsNumber (c :: s) = true → Beginning item c s r
  | signed {t : List Char} : c = '+' ∨ c = '-' → Trivia s t → startsNumber t = true →
      Beginning item c s r
  | text : isQuote c = true ∨ isTextMark c = true → Beginning item c s r
  | name : c ∈ ['T', 'F', 'N', 's'] → Beginning item c s r
  | bracket : c ∈ ['[', '(', '\x7b'] → Inside item c s r → Beginning item c s r

section
variable {item : Writes Value} {c : Char} {s r : List Char} {v : Value}

theorem beginning_of_texts {cs : List Char} (h : Texts (c :: s) cs r) : Beginning item c s r := by
  obtain ⟨ds, a, ht⟩ : ∃ ds a, text (c :: s) = .ok (ds, a) := by
    cases h with
    | one ht => exact ⟨_, _, ht⟩
    | more ht _ _ => exact ⟨_, _, ht⟩
  refine .text ?_
  rcases text_cases ht with ⟨q, t, hs, hq, _⟩ | ⟨m, q, t, hs, hm, _, _⟩
  · cases hs
    exact .inl hq
  · cases hs
    exact .inr hm

theorem beginning_of_name {d : Char} {n t : List Char} (hd : d ∈ ['T', 'F', 'N', 's'])
    (h : Name (d :: n) (c :: s) t) : Beginning item c s r := by
  refine .name ?_
  rwa [(List.cons.inj h.1).1]

theorem beginning_of_form (h : Form item (c :: s) v r) : Beginning item c s r := by
  have items : ∀ {c closing s vs}, c ∈ ['[', '(', '\x7b'] → closing ∈ [']', ')', '\x7d'] →
      Items item closing s vs r → Beginning item c s r := fun {c closing s vs} hc hclosing hi => by
    simp only [List.mem_cons, List.not_mem_nil, or_false] at hclosing
    obtain ⟨hdelimiter, hcomma, hcolon⟩ : isDelimiter closing = true ∧ closing ≠ ',' ∧
        closing ≠ ':' := by
      rcases hclosing with rfl | rfl | rfl <;> decide
    exact .bracket hc ⟨closing, hdelimiter, hcomma, hcolon, .inl ⟨vs, hi⟩⟩
  generalize hcs : c :: s = cs at h
  cases h with
  | number h => exact .number (hcs ▸ h.1)
  | signed hsign ht h =>
    cases hcs
    exact .signed hsign ht h.1
  | texts h => exact beginning_of_texts (hcs ▸ h)
  | true h | false h | absent h | emptySet h _ _ =>
    exact beginning_of_name (by decide) (hcs ▸ h)
  | list hi =>
    cases hcs
    exact items (by decide) (by decide) hi
  | emptyTuple hm | emptyMap hm =>
    cases hcs
    exact items (by decide) (by decide) (.none hm)
  | tuple hv hm hi =>
    cases hcs
    exact items (by decide) (by decide) (.more hv hm hi)
  | group hv hm =>
    cases hcs
    exact items (by decide) (by decide) (.last hv hm)
  | set hi _ _ =>
    cases hcs
    exact items (by decide) (by decide) hi
  | map hi _ _ =>
    cases hcs
    exact .bracket (by decide) ⟨'\x7d', by decide, by decide, by decide, .inr ⟨rfl, _, hi⟩⟩

end

section
variable {item : Writes Value} {s r : List Char} {v : Value}

theorem not_form_i : ¬ Form item ('i' :: s) v r := by
  intro h
  cases beginning_of_form h with
  | number h => simp [startsNumber_cons] at h
  | signed h => simp at h
  | text h | name h | bracket h => exact absurd h (by decide)

/-- The word for an infinity, with or without a sign, is no value. -/
theorem not_form_minus_i : ¬ Form item ('-' :: 'i' :: s) v r := by
  intro h
  cases beginning_of_form h with
  | number h => simp [startsNumber_cons] at h
  | @signed t _ ht h =>
    -- the word is no trivia, so it stands right behind the sign, where a number does not
    have hi : NoTrivia ('i' :: s) := noTrivia_cons (by decide) (by decide)
    have hopen := (opens_of_startsNumber h).noTrivia
    have heq : t = 'i' :: s := by
      rw [← ht.eq_dropTrivia hopen, dropTrivia_of_noTrivia hi]
    subst heq
    simp [startsNumber_cons] at h
  | text h | name h | bracket h => exact absurd h (by decide)

theorem inside_of_form {c : Char} (hc : c ∈ ['[', '(', '\x7b']) (h : Form item (c :: s) v r) :
    Inside item c s r := by
  have brackets : ∀ c ∈ ['[', '(', '\x7b'], c ≠ '.' ∧ c.isDigit = false ∧ ¬ (c = '+' ∨ c = '-') ∧
      ¬ (isQuote c = true ∨ isTextMark c = true) ∧ c ∉ ['T', 'F', 'N', 's'] := by
    intro c hc
    simp only [List.mem_cons, List.not_mem_nil, or_false] at hc
    rcases hc with rfl | rfl | rfl <;> decide
  obtain ⟨hpoint, hdigit, hsign, htext, hname⟩ := brackets c hc
  cases beginning_of_form h with
  | number h =>
    rw [startsNumber_cons hpoint, hdigit] at h
    cases h
  | signed h => exact absurd h hsign
  | text h => exact absurd h htext
  | name h => exact absurd h hname
  | bracket _ h => exact h

end

/-! ## Values -/

omit [Payloads] in
theorem text_of_isInfinite {x : Float} (hx : IsInfinite x) :
    floatLayout.text x = if signBit x then ['-', 'i', 'n', 'f'] else ['i', 'n', 'f'] := by
  have hn : isNotANumber x = false := by
    rw [isNotANumber, hx]
    decide
  rw [FloatLayout.text, hn, if_neg Bool.false_ne_true]
  simp only [if_pos (show magnitudeBits x = 0x7FF0000000000000 from hx)]

/-- The word for an infinity is no value. -/
theorem not_form_of_isInfinite {item : Writes Value} {x : Float} (hx : IsInfinite x)
    {r a : List Char} {u : Value} : ¬ Form item ((float x).chars ++ r) u a := by
  have hchars : (float x).chars = floatLayout.text x := rfl
  rw [hchars, text_of_isInfinite hx]
  split
  · exact not_form_minus_i
  · exact not_form_i

/-- Reading the printed value goes no further than its text, and it holds no infinite float. -/
def ReadsExactly (d : Nat) (w : Value) : Prop :=
  ∀ r u a, Ends r → Expr d (w.chars ++ r) u a → Follows a → w.Everywhere NotInfinite ∧ a = r

section
variable {d : Nat} {c closing : Char} {r a : List Char}

/-- A mark found behind a printed value is the delimiter that stands there. -/
theorem ReadsExactly.mark {w u : Value} (hw : ReadsExactly d w) {e : Char} {t b b' : List Char}
    (he : isDelimiter e = true) (h : Expr d (w.chars ++ e :: t) u b) (hc : isDelimiter c = true)
    (hm : Mark c b b') : w.Everywhere NotInfinite ∧ c = e ∧ b' = t := by
  obtain ⟨hgood, rfl⟩ := hw _ _ _ (ends_cons he) h (hm.follows hc)
  exact ⟨hgood, hm.eq_of_cons he hc⟩

/-- Printed values in brackets. -/
theorem everywhere_of_inside {vs : List Value} (hstarts : ∀ w ∈ vs, Starts w.chars)
    (hread : ∀ w ∈ vs, ReadsExactly d w) (hc : isDelimiter closing = true) (hcolon : closing ≠ ':')
    (h : Inside (Expr d) c (commaSeparated (charsEach vs) ++ closing :: r) a) :
    ∀ w ∈ vs, w.Everywhere NotInfinite := by
  rw [charsEach_eq_map] at h
  obtain ⟨closing', hc', hcomma', hcolon', ⟨us, hi⟩ | ⟨_, es, hi⟩⟩ := h
  · exact everywhere_of_items hc hc' hcomma' Expr.of_blank hstarts (fun w hw => hread w hw _ _ _) hi
  · cases vs with
    | nil => simp
    | cons w ws =>
      -- a key would have to end at a colon, but a comma or the closing mark stands there
      obtain ⟨e, t, heq, het⟩ := commaSeparated_cons chars w ws closing r
      have hends : isDelimiter e = true ∧ e ≠ ':' := by
        rcases het with ⟨_, rfl⟩ | ⟨rfl, _⟩
        · exact ⟨hc, hcolon⟩
        · decide
      rw [heq] at hi
      obtain ⟨entry, _, _, _, ⟨b, b', hkey, hm, _⟩, _, _⟩ :=
        hi.first ((hstarts w List.mem_cons_self).append _) hc'
      have := (hread w List.mem_cons_self).mark hends.1 hkey (by decide) hm
      exact absurd this.2.1.symm hends.2

/-- Printed entries in brackets. -/
theorem everywhere_of_inside_entries {es : List (Value × Value)}
    (hstarts : ∀ e ∈ es, Starts e.1.chars)
    (hread : ∀ e ∈ es, ReadsExactly d e.1 ∧ ReadsExactly d e.2) (hc : isDelimiter closing = true)
    (h : Inside (Expr d) c (commaSeparated (entryChars es) ++ closing :: r) a) :
    ∀ e ∈ es, e.1.Everywhere NotInfinite ∧ e.2.Everywhere NotInfinite := by
  rw [entryChars_eq_map] at h
  obtain ⟨closing', hc', hcomma', hcolon', ⟨us, hi⟩ | ⟨_, fs, hi⟩⟩ := h
  · cases es with
    | nil => simp
    | cons e es =>
      -- an item would have to end at a comma or the closing mark, but a colon stands there
      obtain ⟨e', t, heq, _⟩ := commaSeparated_cons
        (fun e : Value × Value => e.1.chars ++ ':' :: ' ' :: e.2.chars) e es closing r
      rw [heq, List.append_assoc, List.cons_append] at hi
      obtain ⟨u, b, m, b', hu, hm, hmc⟩ := hi.first ((hstarts e List.mem_cons_self).append _) hc'
      have hmd : isDelimiter m = true ∧ m ≠ ':' := by
        rcases hmc with rfl | rfl
        · decide
        · exact ⟨hc', hcolon'⟩
      have := (hread e List.mem_cons_self).1.mark (by decide) hu hmd.1 hm
      exact absurd this.2.1 hmd.2
  · refine everywhere_of_items hc hc' hcomma' ?_ (fun e he => (hstarts e he).append _) ?_ hi
    · rintro s e r ⟨b, b', hk, hm, hv⟩
      exact ⟨b, b', hk.of_blank, hm, hv⟩
    · rintro e he r f b hr ⟨k, k', hk, hm, hv⟩ hb
      rw [List.append_assoc, List.cons_append] at hk
      obtain ⟨hgood, _, rfl⟩ := (hread e he).1.mark (by decide) hk (by decide) hm
      obtain ⟨hgood', rfl⟩ := (hread e he).2 _ _ _ hr hv.of_blank hb
      exact ⟨⟨hgood, hgood'⟩, rfl⟩

end

/-- What is inside a printed value that is read. -/
theorem everywhere_children_of_form {v u : Value} {d : Nat} {r a : List Char}
    (hstarts : ∀ w ∈ v.children, Starts w.chars) (hread : ∀ w ∈ v.children, ReadsExactly d w)
    (h : Form (Expr d) (v.chars ++ r) u a) : ∀ w ∈ v.children, w.Everywhere NotInfinite := by
  cases v with
  | absent | bool _ | int _ | str _ | decimal _ | custom _ | float _ => simp [children]
  | list vs =>
    rw [Value.chars, List.cons_append, List.append_assoc] at h
    exact everywhere_of_inside hstarts hread (by decide) (by decide)
      (inside_of_form (by decide) h)
  | tuple vs =>
    rcases vs with _ | ⟨w, _ | ⟨w', ws⟩⟩
    · simp [children]
    · -- the comma behind a single item ends the text of the item
      simp only [Value.chars, charsEach, List.cons_append, List.append_assoc] at h
      have hinside : Inside (Expr d) '(' (commaSeparated (charsEach [w]) ++ ',' :: ')' :: r) a := by
        simpa [charsEach, commaSeparated, List.intercalate] using inside_of_form (by decide) h
      exact everywhere_of_inside hstarts hread (by decide) (by decide) hinside
    · simp only [Value.chars, charsEach, List.cons_append, List.append_assoc] at h
      exact everywhere_of_inside hstarts hread (by decide) (by decide)
        (inside_of_form (by decide) h)
  | set vs =>
    rcases vs with _ | ⟨w, ws⟩
    · simp [children]
    · simp only [Value.chars, charsEach, List.cons_append, List.append_assoc] at h
      exact everywhere_of_inside hstarts hread (by decide) (by decide)
        (inside_of_form (by decide) h)
  | map es =>
    rw [Value.chars, List.cons_append, List.append_assoc] at h
    have hkey : ∀ e ∈ es, e.1 ∈ (map es).children := fun e he =>
      mem_children_map.2 ⟨e, he, .inl rfl⟩
    have hcontent : ∀ e ∈ es, e.2 ∈ (map es).children := fun e he =>
      mem_children_map.2 ⟨e, he, .inr rfl⟩
    have hentries := everywhere_of_inside_entries (fun e he => hstarts _ (hkey e he))
      (fun e he => ⟨hread _ (hkey e he), hread _ (hcontent e he)⟩) (by decide)
      (inside_of_form (by decide) h)
    intro w hw
    obtain ⟨e, he, rfl | rfl⟩ := mem_children_map.1 hw
    · exact (hentries e he).1
    · exact (hentries e he).2

/-- What is printed and read holds no infinite float, and reading it goes no further than its
text. -/
theorem readsExactly {v : Value} (hv : v.Everywhere IsRead) {d : Nat}
    (hd : FitsAt maxDepth d v) : ReadsExactly d v := by
  induction v using children_induction generalizing d with
  | step v ih =>
    intro r u a hr h ha
    have hform : Form (Expr (d + 1)) (v.chars ++ r) u a := by
      obtain ⟨_, t, ht, hform⟩ := expr_iff.1 h
      have hopens := opens_of_starts ((starts_of_isRead hv).append r)
      rw [← ht.eq_dropTrivia hform.opens.noTrivia, dropTrivia_of_noTrivia hopens.noTrivia] at hform
      exact hform
    have hself : NotInfinite v := by
      intro x hx hinfinite
      cases v <;> cases hx
      exact not_form_of_isInfinite hinfinite hform
    have hall : v.Everywhere NotInfinite :=
      .intro hself (everywhere_children_of_form (fun w hw => starts_of_isRead (hv.child hw))
        (fun w hw => ih w hw (hv.child hw) (hd.child hw)) hform)
    -- so it is printable, and printable values are read as they are printed
    have hprinted := expr_chars (everywhere_isPrintable hv hall) hd hr
    exact ⟨hall, (Expr.unique h ha hprinted hr.follows).2⟩

/-! ## Whole texts -/

/-- Reading undoes printing on every literal whose floats are finite and that nests at most 64
containers. -/
theorem parse_render_of_isFinite {v : Value} (hv : v.Everywhere IsLiteral)
    (hf : v.Everywhere fun w => ∀ x ∈ w.float?, isFinite x = true) (hn : v.nesting ≤ 64) :
    parse v.render = .ok v :=
  parse_render_of_fitsAt ((hv.and hf).imp fun _ hw => ⟨hw.1, fun x hx =>
    ⟨hw.2 x hx, readFloat_text rfl (hw.2 x hx)⟩⟩) (fitsAt_of_nesting hn)

/-- What was read is read back from its text, unless a float in it is infinite. -/
theorem parse_render_eq_ok_iff {raw : String} {v u : Value} (h : parse raw = .ok v) :
    parse v.render = .ok u ↔ u = v ∧ v.Everywhere NotInfinite := by
  obtain ⟨hwell, hfits⟩ := wellFormed_of_parse h
  constructor
  · intro hu
    rw [whole_of_parse, whole_eq_ok_iff, render, String.toList_ofList] at hu
    obtain ⟨r, hexpr, htrivia⟩ := hu
    have hfollows : Follows r := by
      rw [Follows, htrivia.dropTrivia_eq]
      exact fun c hc => by cases hc
    rw [← List.append_nil v.chars] at hexpr
    have hends : Ends [] := by simp [Ends]
    obtain ⟨hgood, -⟩ := readsExactly hwell hfits [] u r hends hexpr hfollows
    have hback := expr_chars (everywhere_isPrintable hwell hgood) hfits hends
    exact ⟨(Expr.unique hexpr hfollows hback hends.follows).1, hgood⟩
  · rintro ⟨rfl, hgood⟩
    exact parse_render_of_fitsAt (everywhere_isPrintable hwell hgood) hfits

end

end TypedSettings.Literal
