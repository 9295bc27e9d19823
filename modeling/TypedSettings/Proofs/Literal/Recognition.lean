import TypedSettings.Proofs.Literal.Grammar

/-!
# Reading exactly the grammar

The reader of literals accepts what the grammar writes, with the value that it writes, and nothing
else. A reader of items and a relation go together if the reader is sound, and complete where a
value may end (`Recognizes`); every display keeps that, and so does going one level up
(`recognizes_value`). Main statement: a text is read as a value exactly if the text is an
expression at depth zero with that value, and trivia (`parse_eq_ok_iff`).
-/

namespace TypedSettings.Literal

open Text

/-! ## Marks -/

theorem eat?_eq_some_iff {c : Char} {s r : List Char} : eat? c s = some r ↔ s = c :: r := by
  cases s with
  | nil => simp [eat?]
  | cons d s =>
    by_cases h : d = c <;> simp [eat?, h]

theorem eat?_dropTrivia {c : Char} (hc : isBlank c = false ∧ c ≠ '#') {s r : List Char} :
    eat? c (dropTrivia s) = some r ↔ Mark c s r := by
  rw [eat?_eq_some_iff, mark_iff hc]

/-- Where one mark stands no other is eaten. -/
theorem Mark.eat?_of_ne {c d : Char} {s r : List Char} (h : Mark c s r)
    (hc : isBlank c = false ∧ c ≠ '#') (hd : c ≠ d) : eat? d (dropTrivia s) = none := by
  rw [(mark_iff hc).1 h, eat?, if_neg hd]

/-! ## Readers of items -/

/-- The reader of items reads what the relation writes, if a value may end there. -/
structure Recognizes {α : Type} (read : List Char → Step α) (writes : Writes α) : Prop where
  sound : ∀ {s x r}, read s = .ok (x, r) → writes s x r
  complete : ∀ {s x r}, writes s x r → Follows r → read s = .ok (x, r)
  suffix : ∀ {s x r}, writes s x r → r <:+ s
  opens : ∀ {s x r}, writes s x r → Opens (dropTrivia s)
  skips : ∀ {s x r}, writes (dropTrivia s) x r ↔ writes s x r

/-- Where a value starts no delimiter is eaten. -/
theorem Recognizes.no_delimiter {α : Type} {read : List Char → Step α} {writes : Writes α}
    (h : Recognizes read writes) {c : Char} {s r : List Char} {x : α} (hw : writes s x r)
    (hc : isDelimiter c = true) : eat? c (dropTrivia s) = none := by
  obtain ⟨d, t, ht, _, _, hd⟩ := h.opens hw
  have hne : d ≠ c := by
    rintro rfl
    rw [hd] at hc
    cases hc
  rw [ht, eat?, if_neg hne]

section
variable [Payloads]

section
variable {item : ItemReader} {writes : Writes Value} {closing : Char} {fuel : Nat}
  {s r : List Char}

theorem items_sound (h : Recognizes item writes) (hc : isDelimiter closing = true)
    {vs : List Value} (hr : items item closing fuel s = .ok (vs, r)) :
    Items writes closing s vs r := by
  induction fuel generalizing s vs with
  | zero => cases hr
  | succ fuel ih =>
    have hcl := isBlank_of_isDelimiter hc
    rw [items] at hr
    split at hr
    · rename_i he
      cases hr
      exact .none ((eat?_dropTrivia hcl).1 he)
    · obtain ⟨v, a, hv, hr⟩ := Step.next_eq_ok.1 hr
      have hv := h.skips.1 (h.sound hv)
      split at hr
      · rename_i b hb
        obtain ⟨ws, r', hw, hr⟩ := Step.next_eq_ok.1 hr
        cases hr
        exact .more hv ((eat?_dropTrivia (by decide)).1 hb) (ih hw)
      · split at hr
        · rename_i he
          cases hr
          exact .last hv ((eat?_dropTrivia hcl).1 he)
        · cases hr

theorem items_complete (h : Recognizes item writes) (hc : isDelimiter closing = true)
    (hn : closing ≠ ',') {vs : List Value} (hi : Items writes closing s vs r)
    (hf : s.length < fuel) : items item closing fuel s = .ok (vs, r) := by
  have hcl := isBlank_of_isDelimiter hc
  induction hi generalizing fuel with
  | none hm =>
    obtain ⟨fuel, rfl⟩ := Nat.exists_eq_succ_of_ne_zero (Nat.ne_of_gt (Nat.zero_lt_of_lt hf))
    simp [items, (eat?_dropTrivia hcl).2 hm]
  | last hx hm =>
    obtain ⟨fuel, rfl⟩ := Nat.exists_eq_succ_of_ne_zero (Nat.ne_of_gt (Nat.zero_lt_of_lt hf))
    have hv := h.complete (h.skips.2 hx) (hm.follows hc)
    simp [items, h.no_delimiter hx hc, hv, Step.next, hm.eat?_of_ne hcl hn,
      (eat?_dropTrivia hcl).2 hm]
  | @more s a b r x xs hx hm _ ih =>
    obtain ⟨fuel, rfl⟩ := Nat.exists_eq_succ_of_ne_zero (Nat.ne_of_gt (Nat.zero_lt_of_lt hf))
    have hv := h.complete (h.skips.2 hx) (hm.follows (by decide))
    have hlt : b.length < fuel := by
      have := hm.length_lt
      have := (h.suffix hx).length_le
      omega
    simp [items, h.no_delimiter hx hc, hv, Step.next, (eat?_dropTrivia (by decide)).2 hm, ih hlt]

omit [Payloads] in
/-- Items that all have a property are items of a relation that asks for it. -/
theorem items_and_iff {α : Type} {writes : Writes α} {P : α → Prop} {xs : List α} :
    Items (fun s x r => writes s x r ∧ P x) closing s xs r ↔
      Items writes closing s xs r ∧ ∀ x ∈ xs, P x := by
  constructor
  · intro h
    induction h with
    | none hm => exact ⟨.none hm, by simp⟩
    | last hx hm => exact ⟨.last hx.1 hm, by simpa using hx.2⟩
    | more hx hm _ ih => exact ⟨.more hx.1 hm ih.1, by simpa using ⟨hx.2, ih.2⟩⟩
  · rintro ⟨h, hp⟩
    induction h with
    | none hm => exact .none hm
    | last hx hm => exact .last ⟨hx, hp _ (by simp)⟩ hm
    | more hx hm _ ih =>
      exact .more ⟨hx, hp _ (by simp)⟩ hm (ih fun x hm => hp x (by simp [hm]))

/-! ## Members and entries -/

theorem requireHashable_eq_ok {α : Type} {v : Value} {next : Step α} {x : α × List Char} :
    requireHashable v s next = .ok x ↔ v.hashable = true ∧ next = .ok x := by
  unfold requireHashable
  split <;> simp_all

theorem recognizes_member (h : Recognizes item writes) :
    Recognizes (member item) fun s v r => writes s v r ∧ v.hashable = true where
  sound hr := by
    obtain ⟨v, a, hv, hr⟩ := Step.next_eq_ok.1 hr
    obtain ⟨hh, hr⟩ := requireHashable_eq_ok.1 hr
    cases hr
    exact ⟨h.sound hv, hh⟩
  complete hw hf := Step.next_eq_ok.2
    ⟨_, _, h.complete hw.1 hf, requireHashable_eq_ok.2 ⟨hw.2, rfl⟩⟩
  suffix hw := h.suffix hw.1
  opens hw := h.opens hw.1
  skips := and_congr_left fun _ => h.skips

def KeyedEntry (writes : Writes Value) : Writes (Value × Value) := fun s e r =>
  Entry writes s e r ∧ e.1.hashable = true

theorem recognizes_entry (h : Recognizes item writes) :
    Recognizes (entry item) (KeyedEntry writes) where
  sound hr := by
    obtain ⟨k, a, hk, hr⟩ := Step.next_eq_ok.1 hr
    obtain ⟨hk, hh⟩ := (recognizes_member h).sound hk
    split at hr
    · rename_i b hb
      obtain ⟨v, r', hv, hr⟩ := Step.next_eq_ok.1 hr
      cases hr
      exact ⟨⟨a, b, hk, (eat?_dropTrivia (by decide)).1 hb, h.sound hv⟩, hh⟩
    · cases hr
  complete := by
    rintro s ⟨k, v⟩ r ⟨⟨a, b, hk, hm, hv⟩, hh⟩ hf
    have hk := (recognizes_member h).complete ⟨hk, hh⟩ (hm.follows (by decide))
    refine Step.next_eq_ok.2 ⟨k, a, hk, ?_⟩
    simp [(eat?_dropTrivia (by decide)).2 hm, h.complete hv hf, Step.next]
  suffix hw := Entry.suffix h.suffix hw.1
  opens := fun ⟨⟨_, _, hk, _⟩, _⟩ => h.opens hk
  skips := by
    intro s e r
    simp only [KeyedEntry, Entry, h.skips]

theorem moreEntries_sound (h : Recognizes item writes) {e : Value × Value}
    {es : List (Value × Value)} {a : List Char} (he : KeyedEntry writes s e a)
    (hr : moreEntries item fuel a = .ok (es, r)) :
    Items (KeyedEntry writes) '\x7d' s (e :: es) r := by
  induction fuel generalizing s e a es with
  | zero => cases hr
  | succ fuel ih =>
    rw [moreEntries] at hr
    split at hr
    · rename_i hm
      cases hr
      exact .last he ((eat?_dropTrivia (by decide)).1 hm)
    · split at hr
      · cases hr
      · rename_i b hb
        have hb := (eat?_dropTrivia (by decide)).1 hb
        split at hr
        · rename_i hm
          cases hr
          exact .more he hb (.none ((eat?_dropTrivia (by decide)).1 hm))
        · obtain ⟨e', a', he', hr⟩ := Step.next_eq_ok.1 hr
          obtain ⟨es', r', hes, hr⟩ := Step.next_eq_ok.1 hr
          cases hr
          have hentry := recognizes_entry h
          exact .more he hb (ih (hentry.skips.1 (hentry.sound he')) hes)

theorem moreEntries_complete (h : Recognizes item writes) {es : List (Value × Value)}
    (hi : Items (KeyedEntry writes) '\x7d' s es r) {e : Value × Value}
    {fs : List (Value × Value)} (hes : es = e :: fs) :
    ∃ a, KeyedEntry writes s e a ∧ Follows a ∧
      ∀ fuel, a.length < fuel → moreEntries item fuel a = .ok (fs, r) := by
  have hentry := recognizes_entry h
  induction hi generalizing e fs with
  | none => cases hes
  | @last s a r x hx hm =>
    cases hes
    refine ⟨a, hx, hm.follows (by decide), fun fuel hf => ?_⟩
    obtain ⟨fuel, rfl⟩ := Nat.exists_eq_succ_of_ne_zero (Nat.ne_of_gt (Nat.zero_lt_of_lt hf))
    simp [moreEntries, (eat?_dropTrivia (by decide)).2 hm]
  | @more s a b r x xs hx hm hrest ih =>
    cases hes
    refine ⟨a, hx, hm.follows (by decide), fun fuel hf => ?_⟩
    obtain ⟨fuel, rfl⟩ := Nat.exists_eq_succ_of_ne_zero (Nat.ne_of_gt (Nat.zero_lt_of_lt hf))
    have hno : eat? '\x7d' (dropTrivia a) = none := hm.eat?_of_ne (by decide) (by decide)
    have hcomma := (eat?_dropTrivia (by decide)).2 hm
    cases hxs : xs with
    | nil =>
      -- a comma and no entry: the trailing comma
      subst hxs
      cases hrest with
      | none hb => simp [moreEntries, hno, hcomma, (eat?_dropTrivia (by decide)).2 hb]
    | cons e' fs' =>
      obtain ⟨a', he', hf', hmore⟩ := ih hxs
      have hread := hentry.complete (hentry.skips.2 he') hf'
      have hlt : a'.length < fuel := by
        have := hm.length_lt
        have := (hentry.suffix he').length_le
        omega
      have hopen : eat? '\x7d' (dropTrivia b) = none := hentry.no_delimiter he' (by decide)
      simp [moreEntries, hno, hcomma, hopen, hread, hmore fuel hlt, Step.next]

/-! ## Displays -/

theorem bracketed_sound (h : Recognizes item writes) {v : Value}
    (hr : bracketed item s = .ok (v, r)) : Form writes ('[' :: s) v r := by
  obtain ⟨vs, r', hi, hr⟩ := Step.next_eq_ok.1 hr
  cases hr
  exact .list (items_sound h (by decide) hi)

theorem bracketed_complete (h : Recognizes item writes) {vs : List Value}
    (hi : Items writes ']' s vs r) : bracketed item s = .ok (.list vs, r) := by
  refine Step.next_eq_ok.2 ⟨vs, r, ?_, rfl⟩
  exact items_complete h (by decide) (by decide) hi (Nat.lt_succ_self _)

theorem parenthesized_sound (h : Recognizes item writes) {v : Value}
    (hr : parenthesized item s = .ok (v, r)) : Form writes ('(' :: s) v r := by
  unfold parenthesized at hr
  split at hr
  · rename_i hm
    cases hr
    exact .emptyTuple ((eat?_dropTrivia (by decide)).1 hm)
  · obtain ⟨w, a, hw, hr⟩ := Step.next_eq_ok.1 hr
    have hw := h.skips.1 (h.sound hw)
    split at hr
    · rename_i hm
      cases hr
      exact .group hw ((eat?_dropTrivia (by decide)).1 hm)
    · split at hr
      · rename_i hm
        obtain ⟨vs, r', hi, hr⟩ := Step.next_eq_ok.1 hr
        cases hr
        exact .tuple hw ((eat?_dropTrivia (by decide)).1 hm) (items_sound h (by decide) hi)
      · cases hr

theorem parenthesized_empty (hm : Mark ')' s r) : parenthesized item s = .ok (.tuple [], r) := by
  simp [parenthesized, (eat?_dropTrivia (by decide)).2 hm]

theorem parenthesized_group (h : Recognizes item writes) {v : Value} {a : List Char}
    (hv : writes s v a) (hm : Mark ')' a r) : parenthesized item s = .ok (v, r) := by
  have hopen : eat? ')' (dropTrivia s) = none := h.no_delimiter hv (by decide)
  have hread := h.complete (h.skips.2 hv) (hm.follows (by decide))
  simp [parenthesized, hopen, hread, Step.next, (eat?_dropTrivia (by decide)).2 hm]

theorem parenthesized_tuple (h : Recognizes item writes) {v : Value} {vs : List Value}
    {a b : List Char} (hv : writes s v a) (hm : Mark ',' a b) (hi : Items writes ')' b vs r) :
    parenthesized item s = .ok (.tuple (v :: vs), r) := by
  have hopen : eat? ')' (dropTrivia s) = none := h.no_delimiter hv (by decide)
  have hread := h.complete (h.skips.2 hv) (hm.follows (by decide))
  have hno : eat? ')' (dropTrivia a) = none := hm.eat?_of_ne (by decide) (by decide)
  have hitems := items_complete h (by decide) (by decide) hi (Nat.lt_succ_self _)
  simp [parenthesized, hopen, hread, Step.next, hno, (eat?_dropTrivia (by decide)).2 hm, hitems]

theorem setAfter_sound (h : Recognizes item writes) {v w : Value} {a : List Char}
    (hv : writes s v a) (hh : v.hashable = true) (hr : setAfter item v a = .ok (w, r)) :
    Form writes ('\x7b' :: s) w r := by
  have form : ∀ {vs}, Items (fun s v r => writes s v r ∧ v.hashable = true) '\x7d' s (v :: vs) r →
      Form writes ('\x7b' :: s) (.setOf (v :: vs)) r := fun hi =>
    .set (items_and_iff.1 hi).1 (by simp) (items_and_iff.1 hi).2
  unfold setAfter at hr
  split at hr
  · rename_i hm
    cases hr
    exact form (.last ⟨hv, hh⟩ ((eat?_dropTrivia (by decide)).1 hm))
  · split at hr
    · rename_i hm
      obtain ⟨vs, r', hi, hr⟩ := Step.next_eq_ok.1 hr
      cases hr
      exact form (.more ⟨hv, hh⟩ ((eat?_dropTrivia (by decide)).1 hm)
        (items_sound (recognizes_member h) (by decide) hi))
    · cases hr

theorem mapAfter_sound (h : Recognizes item writes) {k w : Value} {a b : List Char}
    (hk : writes s k a) (hh : k.hashable = true) (hm : Mark ':' a b)
    (hr : mapAfter item k b = .ok (w, r)) : Form writes ('\x7b' :: s) w r := by
  obtain ⟨v, c, hv, hr⟩ := Step.next_eq_ok.1 hr
  obtain ⟨es, r', hes, hr⟩ := Step.next_eq_ok.1 hr
  cases hr
  obtain ⟨hi, hall⟩ := items_and_iff.1
    (moreEntries_sound h (e := (k, v)) ⟨⟨a, b, hk, hm, h.sound hv⟩, hh⟩ hes)
  exact .map hi (by simp) hall

theorem braced_sound (h : Recognizes item writes) {v : Value}
    (hr : braced item s = .ok (v, r)) : Form writes ('\x7b' :: s) v r := by
  unfold braced at hr
  split at hr
  · rename_i hm
    cases hr
    exact .emptyMap ((eat?_dropTrivia (by decide)).1 hm)
  · obtain ⟨w, a, hw, hr⟩ := Step.next_eq_ok.1 hr
    obtain ⟨hh, hr⟩ := requireHashable_eq_ok.1 hr
    have hw := h.skips.1 (h.sound hw)
    split at hr
    · rename_i hm
      exact mapAfter_sound h hw hh ((eat?_dropTrivia (by decide)).1 hm) hr
    · exact setAfter_sound h hw hh hr

theorem braced_empty (hm : Mark '\x7d' s r) : braced item s = .ok (.map [], r) := by
  simp [braced, (eat?_dropTrivia (by decide)).2 hm]

theorem braced_set (h : Recognizes item writes) {v : Value} {vs : List Value}
    (hi : Items writes '\x7d' s (v :: vs) r) (hh : ∀ w ∈ v :: vs, w.hashable = true) :
    braced item s = .ok (.setOf (v :: vs), r) := by
  have hv := hh v (by simp)
  cases hi with
  | @last _ a _ _ hx hm =>
    have hopen : eat? '\x7d' (dropTrivia s) = none := h.no_delimiter hx (by decide)
    have hread := h.complete (h.skips.2 hx) (hm.follows (by decide))
    have hno : eat? ':' (dropTrivia a) = none := hm.eat?_of_ne (by decide) (by decide)
    simp [braced, hopen, hread, Step.next, requireHashable, hv, hno, setAfter,
      (eat?_dropTrivia (by decide)).2 hm]
  | @more _ a b _ _ _ hx hm hrest =>
    have hopen : eat? '\x7d' (dropTrivia s) = none := h.no_delimiter hx (by decide)
    have hread := h.complete (h.skips.2 hx) (hm.follows (by decide))
    have hno : eat? ':' (dropTrivia a) = none := hm.eat?_of_ne (by decide) (by decide)
    have hno' : eat? '\x7d' (dropTrivia a) = none := hm.eat?_of_ne (by decide) (by decide)
    have hmembers : moreMembers item (b.length + 1) b = .ok (vs, r) :=
      items_complete (recognizes_member h) (by decide) (by decide)
        (items_and_iff.2 ⟨hrest, fun w hw => hh w (by simp [hw])⟩) (Nat.lt_succ_self _)
    simp [braced, hopen, hread, Step.next, requireHashable, hv, hno, setAfter, hno',
      (eat?_dropTrivia (by decide)).2 hm, hmembers]

theorem braced_map (h : Recognizes item writes) {e : Value × Value} {es : List (Value × Value)}
    (hi : Items (Entry writes) '\x7d' s (e :: es) r)
    (hh : ∀ x ∈ e :: es, x.1.hashable = true) :
    braced item s = .ok (.mapOf (e :: es), r) := by
  obtain ⟨c, ⟨⟨a, b, hk, hm, hv⟩, _⟩, hf, hmore⟩ :=
    moreEntries_complete h (items_and_iff.2 ⟨hi, hh⟩) rfl
  have hopen : eat? '\x7d' (dropTrivia s) = none := h.no_delimiter hk (by decide)
  have hkey := h.complete (h.skips.2 hk) (hm.follows (by decide))
  have hrest := hmore (c.length + 1) (Nat.lt_succ_self _)
  simp [braced, hopen, hkey, Step.next, requireHashable, hh e (by simp),
    (eat?_dropTrivia (by decide)).2 hm, mapAfter, h.complete hv hf, hrest]

end

end

/-! ## Texts -/

theorem moreTexts_sound {fuel : Nat} {s a r cs ds : List Char} (h : text s = .ok (cs, a))
    (hr : moreTexts fuel a = .ok (ds, r)) : Texts s (cs ++ ds) r := by
  induction fuel generalizing s a cs ds with
  | zero =>
    cases hr
    simpa using Texts.one h
  | succ fuel ih =>
    rw [moreTexts] at hr
    split at hr
    · obtain ⟨cs', a', ht, hr⟩ := Step.next_eq_ok.1 hr
      obtain ⟨rest, r', hm, hr⟩ := Step.next_eq_ok.1 hr
      cases hr
      exact .more h (trivia_dropTrivia a) (ih ht hm)
    · cases hr
      simpa using Texts.one h

theorem texts_sound {s r cs : List Char} (h : texts s = .ok (cs, r)) : Texts s cs r := by
  obtain ⟨cs', a, ht, h⟩ := Step.next_eq_ok.1 h
  obtain ⟨ds, r', hm, h⟩ := Step.next_eq_ok.1 h
  cases h
  exact moreTexts_sound ht hm

theorem Follows.not_startsText {r : List Char} (h : Follows r) :
    startsText (dropTrivia r) = false := by
  cases hr : dropTrivia r with
  | nil => rfl
  | cons c t =>
    have hc := h c (by simp [hr])
    simp only [isDelimiter, Bool.or_eq_true, beq_iff_eq] at hc
    rcases hc with (((rfl | rfl) | rfl) | rfl) | rfl <;> cases t <;>
      simp [startsText, isQuote, isTextMark]

theorem moreTexts_complete {s r cs : List Char} (h : Texts s cs r) (hf : Follows r) :
    ∃ ds es a, cs = ds ++ es ∧ text s = .ok (ds, a) ∧
      ∀ fuel, a.length ≤ fuel → moreTexts fuel a = .ok (es, r) := by
  induction h with
  | @one s r cs h =>
    refine ⟨cs, [], r, by simp, h, fun fuel _ => ?_⟩
    cases fuel with
    | zero => rfl
    | succ fuel => simp [moreTexts, hf.not_startsText]
  | @more s a b r cs ds h ht _ ih =>
    obtain ⟨es, fs, c, rfl, hb, hmore⟩ := ih hf
    refine ⟨cs, es ++ fs, a, rfl, h, fun fuel hl => ?_⟩
    have hab := ht.eq_dropTrivia (opens_of_text hb).noTrivia
    have hcb := length_lt_of_text hb
    have hba := ht.suffix.length_le
    obtain ⟨fuel, rfl⟩ : ∃ n, fuel = n + 1 := ⟨fuel - 1, by omega⟩
    have hrest := hmore fuel (by omega)
    simp [moreTexts, hab, startsText_of_text hb, hb, hrest, Step.next]

theorem texts_complete {s r cs : List Char} (h : Texts s cs r) (hf : Follows r) :
    texts s = .ok (cs, r) := by
  obtain ⟨ds, es, a, rfl, ht, hmore⟩ := moreTexts_complete h hf
  simp [texts, ht, hmore a.length (Nat.le_refl _), Step.next]

/-! ## Names -/

theorem Name.takeWhile_eq {name s r : List Char} (h : Name name s r)
    (hn : ∀ c ∈ name, isWordChar c = true) :
    s.takeWhile isWordChar = name ∧ s.dropWhile isWordChar = r := by
  rw [h.1]
  exact takeWhile_run hn h.2

theorem name_takeWhile (s : List Char) :
    Name (s.takeWhile isWordChar) s (s.dropWhile isWordChar) := by
  refine ⟨List.takeWhile_append_dropWhile.symm, fun c hc => ?_⟩
  have := List.head?_dropWhile_not isWordChar s
  rw [hc] at this
  simpa using this

theorem emptyCall?_eq_some_iff {s r : List Char} :
    emptyCall? s = some r ↔ ∃ a, Mark '(' s a ∧ Mark ')' a r := by
  simp only [emptyCall?, Option.bind_eq_some_iff, eat?_dropTrivia (c := '(') (by decide),
    eat?_dropTrivia (c := ')') (by decide)]

theorem textValue_sound [Payloads] {writes : Writes Value} {s r : List Char} {v : Value}
    (h : textValue s = .ok (v, r)) : Form writes s v r := by
  obtain ⟨cs, r', ht, h⟩ := Step.next_eq_ok.1 h
  cases h
  exact .texts (texts_sound ht)

theorem named_sound [Payloads] {writes : Writes Value} {s r : List Char} {v : Value}
    (h : named s = .ok (v, r)) : Form writes s v r := by
  have hname := name_takeWhile s
  simp only [named] at h
  split at h
  · split at h
    · exact textValue_sound h
    · cases h
  · split at h
    · rename_i hn
      cases h
      exact .true (hn ▸ hname)
    · split at h
      · rename_i hn
        cases h
        exact .false (hn ▸ hname)
      · split at h
        · rename_i hn
          cases h
          exact .absent (hn ▸ hname)
        · split at h
          · rename_i hn
            split at h
            · rename_i hc
              cases h
              obtain ⟨a, ha, hb⟩ := emptyCall?_eq_some_iff.1 hc
              exact .emptySet (hn ▸ hname) ha hb
            · cases h
          · cases h

/-- A quote is no trivia. -/
theorem dropTrivia_of_isQuote {c : Char} (h : isQuote c = true) (s : List Char) :
    dropTrivia (c :: s) = c :: s := by
  simp only [isQuote, Bool.or_eq_true, beq_iff_eq] at h
  rcases h with rfl | rfl <;> exact dropTrivia_of_noTrivia (noTrivia_cons (by decide) (by decide))

/-- Where trivia goes before a character that is no quote, no quote stands. -/
theorem not_quote_of_dropTrivia {s : List Char}
    (h : ∀ c ∈ (dropTrivia s).head?, isQuote c = false) : s.head?.any isQuote = false := by
  cases s with
  | nil => rfl
  | cons c s =>
    rw [← Bool.not_eq_true]
    intro hq
    have hq : isQuote c = true := by simpa using hq
    have := h c (by simp [dropTrivia_of_isQuote hq])
    rw [hq] at this
    cases this

theorem Follows.not_quote {r : List Char} (h : Follows r) : r.head?.any isQuote = false := by
  refine not_quote_of_dropTrivia fun c hc => ?_
  have hd := h c hc
  simp only [isDelimiter, Bool.or_eq_true, beq_iff_eq] at hd
  rcases hd with (((rfl | rfl) | rfl) | rfl) | rfl <;> rfl

/-! ## Values -/

theorem startsNumber_cons {c : Char} (h : c ≠ '.') (s : List Char) :
    startsNumber (c :: s) = c.isDigit := by
  unfold startsNumber
  split <;> simp_all

section
variable [Payloads]

/-- What starts as a text does is read as a text, marked or not. -/
theorem valueFrom_of_startsText {item : ItemReader} {c : Char} {s : List Char}
    (h : startsText (c :: s) = true) : valueFrom item c s = textValue (c :: s) := by
  rcases startsText_cases h with ⟨q, t, hs, hq⟩ | ⟨m, q, t, hs, hm, hq⟩
  · cases hs
    have hc : c = '\x27' ∨ c = '\x22' := by simpa [isQuote] using hq
    rcases hc with rfl | rfl <;> simp [valueFrom, startsNumber_cons, hq]
  · cases hs
    have hword : isWordChar q = false := by
      have hc : q = '\x27' ∨ q = '\x22' := by simpa [isQuote] using hq
      rcases hc with rfl | rfl <;> decide
    have hnamed : named (c :: q :: t) = textValue (c :: q :: t) := by
      have hc : ((c = 'r' ∨ c = 'R') ∨ c = 'u') ∨ c = 'U' := by simpa [isTextMark] using hm
      rcases hc with ((rfl | rfl) | rfl) | rfl <;>
        simp [named, hword, hq,
          show isWordChar 'r' = true by decide, show isWordChar 'R' = true by decide,
          show isWordChar 'u' = true by decide, show isWordChar 'U' = true by decide]
    have hc : ((c = 'r' ∨ c = 'R') ∨ c = 'u') ∨ c = 'U' := by simpa [isTextMark] using hm
    rcases hc with ((rfl | rfl) | rfl) | rfl <;>
      simp [valueFrom, startsNumber_cons, isQuote, hnamed, isLetter, isAscii]

theorem valueFrom_sound {item : ItemReader} {writes : Writes Value} (h : Recognizes item writes)
    {c : Char} {s r : List Char} {v : Value} (hr : valueFrom item c s = .ok (v, r)) :
    Form writes (c :: s) v r := by
  unfold valueFrom at hr
  split at hr
  · rename_i hsign
    split at hr
    · rename_i hstart
      exact .signed hsign (trivia_dropTrivia s) ⟨hstart, hr⟩
    · cases hr
  split at hr
  · rename_i hstart
    exact .number ⟨hstart, hr⟩
  split at hr
  · exact textValue_sound hr
  split at hr
  · rename_i hc
    exact hc ▸ bracketed_sound h hr
  split at hr
  · rename_i hc
    exact hc ▸ parenthesized_sound h hr
  split at hr
  · rename_i hc
    exact hc ▸ braced_sound h hr
  split at hr
  · exact named_sound hr
  · cases hr

/-- What the name of a constant writes. -/
theorem valueFrom_of_name {item : ItemReader} {c : Char} {name s r : List Char}
    (hs : Name (c :: name) (c :: s) r) (hn : (c :: name).all isWordChar = true)
    (hc : c = 'T' ∨ c = 'F' ∨ c = 'N' ∨ c = 's') (hr : r.head?.any isQuote = false) :
    valueFrom item c s =
      if c :: name = ['T', 'r', 'u', 'e'] then .ok (.bool true, r)
      else if c :: name = ['F', 'a', 'l', 's', 'e'] then .ok (.bool false, r)
      else if c :: name = ['N', 'o', 'n', 'e'] then .ok (.absent, r)
      else if c :: name = ['s', 'e', 't'] then
        match emptyCall? r with
        | some r => .ok (.set [], r)
        | none => .error ⟨.setCall, c :: s⟩
      else .error ⟨.unknownName (String.ofList (c :: name)), c :: s⟩ := by
  have hnamed : valueFrom item c s = named (c :: s) := by
    rcases hc with rfl | rfl | rfl | rfl <;>
      simp [valueFrom, startsNumber_cons, isQuote, isLetter, isAscii]
  obtain ⟨htake, hdrop⟩ := hs.takeWhile_eq (List.all_eq_true.1 hn)
  rw [hnamed, named, htake, hdrop, hr]
  rfl

theorem valueFrom_complete {item : ItemReader} {writes : Writes Value}
    (h : Recognizes item writes) {c : Char} {s r : List Char} {v : Value}
    (hw : Form writes (c :: s) v r) (hf : Follows r) : valueFrom item c s = .ok (v, r) := by
  generalize hcs : c :: s = cs at hw
  cases hw with
  | number hv =>
    subst hcs
    obtain ⟨hstart, hv⟩ := hv
    have hsign : ¬ (c = '+' ∨ c = '-') := by
      rintro (rfl | rfl) <;> simp [startsNumber_cons] at hstart
    rw [valueFrom, if_neg hsign, if_pos hstart, hv]
  | signed hsign ht hv =>
    cases hcs
    obtain ⟨hstart, hv⟩ := hv
    rw [valueFrom, if_pos hsign, ht.eq_dropTrivia (opens_of_startsNumber hstart).noTrivia,
      if_pos hstart, hv]
  | texts ht =>
    subst hcs
    have hvalue : valueFrom item c s = textValue (c :: s) := by
      cases ht with
      | one ht => exact valueFrom_of_startsText (startsText_of_text ht)
      | more ht _ _ => exact valueFrom_of_startsText (startsText_of_text ht)
    rw [hvalue, textValue, texts_complete ht hf]
    rfl
  | true hn =>
    subst hcs
    cases hn.1
    rw [valueFrom_of_name hn (by decide) (by decide) hf.not_quote]
    rfl
  | false hn =>
    subst hcs
    cases hn.1
    rw [valueFrom_of_name hn (by decide) (by decide) hf.not_quote]
    rfl
  | absent hn =>
    subst hcs
    cases hn.1
    rw [valueFrom_of_name hn (by decide) (by decide) hf.not_quote]
    rfl
  | emptySet hn ha hb =>
    subst hcs
    cases hn.1
    have hquote := not_quote_of_dropTrivia fun d hd => by
      rw [(mark_iff (by decide)).1 ha] at hd
      cases hd
      decide
    rw [valueFrom_of_name hn (by decide) (by decide) hquote,
      emptyCall?_eq_some_iff.2 ⟨_, ha, hb⟩]
    rfl
  | list hi =>
    cases hcs
    simp [valueFrom, startsNumber_cons, isQuote, bracketed_complete h hi]
  | emptyTuple hm =>
    cases hcs
    simp [valueFrom, startsNumber_cons, isQuote, parenthesized_empty hm]
  | tuple hv hm hi =>
    cases hcs
    simp [valueFrom, startsNumber_cons, isQuote, parenthesized_tuple h hv hm hi]
  | group hv hm =>
    cases hcs
    simp [valueFrom, startsNumber_cons, isQuote, parenthesized_group h hv hm]
  | emptyMap hm =>
    cases hcs
    simp [valueFrom, startsNumber_cons, isQuote, braced_empty hm]
  | @set _ _ vs hi hne hh =>
    cases hcs
    obtain ⟨w, ws, rfl⟩ := List.exists_cons_of_ne_nil hne
    simp [valueFrom, startsNumber_cons, isQuote, braced_set h hi hh]
  | @map _ _ es hi hne hh =>
    cases hcs
    obtain ⟨e, fs, rfl⟩ := List.exists_cons_of_ne_nil hne
    simp [valueFrom, startsNumber_cons, isQuote, braced_map h hi hh]

/-! ## Levels -/

/-- The reader with so many levels left reads the values at the depth reached. -/
theorem recognizes_value (levels : Nat) {d : Nat} (hd : levels + d = maxDepth + 1) :
    Recognizes (value levels) (Expr d) := by
  induction levels generalizing d with
  | zero =>
    -- with no level left nothing is read, and no expression stands that deep
    have none : ∀ {s v r}, ¬ Expr d s v r := fun h => by
      have := (expr_iff.1 h).1
      omega
    exact {
      sound := fun h => by cases h
      complete := fun h => absurd h none
      suffix := expr_suffix
      opens := Expr.opens
      skips := expr_dropTrivia }
  | succ levels ih =>
    have hitem := ih (d := d + 1) (by omega)
    refine ⟨?_, ?_, expr_suffix, Expr.opens, expr_dropTrivia⟩
    · intro s v r hr
      rw [value] at hr
      split at hr
      · cases hr
      · rename_i c t hs
        exact expr_iff.2 ⟨by omega, c :: t, hs ▸ trivia_dropTrivia s, valueFrom_sound hitem hr⟩
    · intro s v r hw hf
      obtain ⟨_, t, ht, hform⟩ := expr_iff.1 hw
      obtain ⟨c, t, rfl, _⟩ := id hform.opens
      rw [value, ht.eq_dropTrivia hform.opens.noTrivia]
      exact valueFrom_complete hitem hform hf

/-! ## The whole text -/

omit [Payloads] in
theorem trivia_dropIndent (s : List Char) : Trivia s (dropIndent s) := by
  induction s with
  | nil => exact .done []
  | cons c s ih =>
    rw [dropIndent, List.dropWhile_cons]
    split
    · rename_i hc
      have hc : c = ' ' ∨ c = '\t' := by simpa using hc
      refine .blank ?_ ih
      rcases hc with rfl | rfl <;> decide
    · exact .done _

/-- Trivia in front of a value is passed over. -/
theorem value_congr {s u : List Char} (h : dropTrivia s = dropTrivia u) (levels : Nat) :
    value (levels + 1) s = value (levels + 1) u := by
  rw [value, value, h]

/-- A text is read as its value with nothing but trivia behind it. -/
theorem parse_eq_of_value (raw : String) :
    parse raw = match value (maxDepth + 1) raw.toList with
      | .error f => .error (.ofFault raw.toList f)
      | .ok (v, r) => match dropTrivia r with
        | [] => .ok v
        | r => .error (.ofFault raw.toList ⟨.trailingInput, r⟩) := by
  have hindent := (trivia_dropIndent raw.toList).dropTrivia_eq
  rw [parse, whole, ← value_congr hindent]
  rcases value (maxDepth + 1) raw.toList with f | ⟨v, r⟩
  · rfl
  · cases hr : dropTrivia r <;> simp [hr]

/-- What makes up the whole of the characters is an expression at depth zero, and trivia. -/
theorem whole_eq_ok_iff {s : List Char} {v : Value} :
    whole s = .ok v ↔ ∃ r, Expr 0 s v r ∧ Trivia r [] := by
  have h := recognizes_value (maxDepth + 1) (d := 0) rfl
  constructor
  · intro hw
    unfold whole at hw
    split at hw
    · cases hw
    · rename_i w r hv
      split at hw
      · rename_i hr
        cases hw
        exact ⟨r, h.sound hv, hr ▸ trivia_dropTrivia r⟩
      · cases hw
  · rintro ⟨r, hv, hr⟩
    have hr : dropTrivia r = [] := hr.dropTrivia_eq
    have hf : Follows r := by simp [Follows, hr]
    simp [whole, h.complete hv hf, hr]

theorem whole_of_parse {raw : String} {v : Value} :
    parse raw = .ok v ↔ whole raw.toList = .ok v := by
  have hindent : whole (dropIndent raw.toList) = .ok v ↔ whole raw.toList = .ok v := by
    simp only [whole_eq_ok_iff]
    refine exists_congr fun r => and_congr_left fun _ => ?_
    rw [← expr_dropTrivia, ← (trivia_dropIndent raw.toList).dropTrivia_eq, expr_dropTrivia]
  rw [← hindent]
  unfold parse
  split <;> simp_all

/-- A text is read as a value exactly if it is an expression with that value at depth zero, and
trivia. -/
theorem parse_eq_ok_iff (raw : String) (v : Value) :
    parse raw = .ok v ↔ ∃ r, Expr 0 raw.toList v r ∧ Trivia r [] := by
  rw [whole_of_parse, whole_eq_ok_iff]

end

end TypedSettings.Literal
