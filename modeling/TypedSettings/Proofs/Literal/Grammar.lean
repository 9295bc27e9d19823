import TypedSettings.Proofs.Literal.Tokens

/-!
# The grammar of literals

Which characters write which value, as relations between the characters before, the value, and the
characters left: `Expr d` for a value at depth `d`, made of number and text tokens, names, marks and
trivia. Main statements: whatever writes a value leaves a suffix of its characters
(`expr_suffix`), and starts with no trivia and no delimiter (`Form.opens`).
-/

namespace TypedSettings.Literal

open Text

/-- What a part of the characters writes: the characters from its start, what they write, and the
characters that are left. -/
abbrev Writes (α : Type) := List Char → α → List Char → Prop

/-! ## Tokens -/

def Mark (c : Char) (s r : List Char) : Prop := Trivia s (c :: r)

section
variable [Payloads]

def NumberToken (negative : Bool) : Writes Value := fun s v r =>
  startsNumber s = true ∧ number negative s = .ok (v, r)

inductive Texts : Writes (List Char) where
  | one {s r cs : List Char} : text s = .ok (cs, r) → Texts s cs r
  | more {s a b r cs ds : List Char} : text s = .ok (cs, a) → Trivia a b → Texts b ds r →
      Texts s (cs ++ ds) r

/-- A name that is not the beginning of a longer one. -/
def Name (name s r : List Char) : Prop :=
  s = name ++ r ∧ ∀ c ∈ r.head?, isWordChar c = false

/-! ## Items -/

/-- Items with commas between them and then a closing mark; one comma may follow the last item. -/
inductive Items {α : Type} (item : Writes α) (closing : Char) : Writes (List α) where
  | none {s r : List Char} : Mark closing s r → Items item closing s [] r
  | last {s a r : List Char} {x : α} : item s x a → Mark closing a r → Items item closing s [x] r
  | more {s a b r : List Char} {x : α} {xs : List α} : item s x a → Mark ',' a b →
      Items item closing b xs r → Items item closing s (x :: xs) r

def Entry (item : Writes Value) : Writes (Value × Value) := fun s e r =>
  ∃ a b, item s e.1 a ∧ Mark ':' a b ∧ item b e.2 r

/-! ## Values -/

/-- A value that starts right here and whose items are written by the relation given. -/
inductive Form (item : Writes Value) : Writes Value where
  | number {s r : List Char} {v : Value} : NumberToken false s v r → Form item s v r
  | signed {sign : Char} {s t r : List Char} {v : Value} : sign = '+' ∨ sign = '-' → Trivia s t →
      NumberToken (sign == '-') t v r → Form item (sign :: s) v r
  | texts {s r cs : List Char} : Texts s cs r → Form item s (.str (String.ofList cs)) r
  | true {s r : List Char} : Name ['T', 'r', 'u', 'e'] s r → Form item s (.bool true) r
  | false {s r : List Char} : Name ['F', 'a', 'l', 's', 'e'] s r → Form item s (.bool false) r
  | absent {s r : List Char} : Name ['N', 'o', 'n', 'e'] s r → Form item s .absent r
  | emptySet {s a b r : List Char} : Name ['s', 'e', 't'] s a → Mark '(' a b → Mark ')' b r →
      Form item s (.set []) r
  | list {s r : List Char} {vs : List Value} : Items item ']' s vs r →
      Form item ('[' :: s) (.list vs) r
  | emptyTuple {s r : List Char} : Mark ')' s r → Form item ('(' :: s) (.tuple []) r
  | tuple {s a b r : List Char} {v : Value} {vs : List Value} : item s v a → Mark ',' a b →
      Items item ')' b vs r → Form item ('(' :: s) (.tuple (v :: vs)) r
  | group {s a r : List Char} {v : Value} : item s v a → Mark ')' a r → Form item ('(' :: s) v r
  | emptyMap {s r : List Char} : Mark '\x7d' s r → Form item ('\x7b' :: s) (.map []) r
  | set {s r : List Char} {vs : List Value} : Items item '\x7d' s vs r → vs ≠ [] →
      (∀ v ∈ vs, v.hashable = Bool.true) → Form item ('\x7b' :: s) (.setOf vs) r
  | map {s r : List Char} {es : List (Value × Value)} : Items (Entry item) '\x7d' s es r →
      es ≠ [] → (∀ e ∈ es, e.1.hashable = Bool.true) → Form item ('\x7b' :: s) (.mapOf es) r

/-- A value at a depth, after trivia. There is none below the greatest depth, and items stand one
level deeper. -/
def Expr (d : Nat) : Writes Value := fun s v r =>
  ∃ _ : d ≤ maxDepth, ∃ t, Trivia s t ∧ Form (Expr (d + 1)) t v r
termination_by maxDepth + 1 - d

theorem expr_iff {d : Nat} {s r : List Char} {v : Value} :
    Expr d s v r ↔ d ≤ maxDepth ∧ ∃ t, Trivia s t ∧ Form (Expr (d + 1)) t v r := by
  rw [Expr]
  exact exists_prop

theorem Expr.trivia {d : Nat} {s t r : List Char} {v : Value} (hs : Trivia s t)
    (h : Expr d t v r) : Expr d s v r := by
  obtain ⟨hd, u, ht, hf⟩ := expr_iff.1 h
  exact expr_iff.2 ⟨hd, u, hs.trans ht, hf⟩

end

/-! ## Delimiters -/

def isDelimiter (c : Char) : Bool :=
  c == ',' || c == ':' || c == ']' || c == ')' || c == '\x7d'

/-- Whether a value may end here: behind trivia the input ends, or a delimiter stands. -/
def Follows (r : List Char) : Prop := ∀ c ∈ (dropTrivia r).head?, isDelimiter c = true

/-- Whether a value may start here: with a character that is neither trivia nor a delimiter. -/
def Opens (s : List Char) : Prop :=
  ∃ c t, s = c :: t ∧ isBlank c = false ∧ c ≠ '#' ∧ isDelimiter c = false

theorem Opens.noTrivia {s : List Char} (h : Opens s) : NoTrivia s := by
  obtain ⟨c, t, rfl, hb, hc, _⟩ := h
  exact noTrivia_cons hb hc

theorem isBlank_of_isDelimiter {c : Char} (h : isDelimiter c = true) :
    isBlank c = false ∧ c ≠ '#' := by
  simp only [isDelimiter, Bool.or_eq_true, beq_iff_eq] at h
  rcases h with (((rfl | rfl) | rfl) | rfl) | rfl <;> decide

/-- A mark stands where the trivia ends. -/
theorem mark_iff {c : Char} (hc : isBlank c = false ∧ c ≠ '#') {s r : List Char} :
    Mark c s r ↔ dropTrivia s = c :: r := by
  constructor
  · exact fun h => Trivia.eq_dropTrivia h (noTrivia_cons hc.1 hc.2)
  · intro h
    have := trivia_dropTrivia s
    rwa [h] at this

theorem Mark.follows {c : Char} {s r : List Char} (h : Mark c s r) (hc : isDelimiter c = true) :
    Follows s := by
  intro d hd
  rw [(mark_iff (isBlank_of_isDelimiter hc)).1 h] at hd
  cases hd
  exact hc

theorem Mark.suffix {c : Char} {s r : List Char} (h : Mark c s r) : r <:+ s :=
  (List.suffix_cons c r).trans (Trivia.suffix h)

theorem Mark.length_lt {c : Char} {s r : List Char} (h : Mark c s r) : r.length < s.length :=
  (Trivia.suffix h).length_le

/-! ## Where values end -/

theorem Texts.suffix {s r cs : List Char} (h : Texts s cs r) : r <:+ s := by
  induction h with
  | one h => exact text_suffix h
  | more h ht _ ih => exact ih.trans (ht.suffix.trans (text_suffix h))

theorem Name.suffix {name s r : List Char} (h : Name name s r) : r <:+ s := by
  rw [h.1]
  exact List.suffix_append ..

theorem NumberToken.suffix [Payloads] {negative : Bool} {s r : List Char} {v : Value}
    (h : NumberToken negative s v r) : r <:+ s := number_suffix h.2

section
variable [Payloads]

variable {α : Type} {item : Writes Value} {closing : Char} {s r : List Char}

omit [Payloads] in
theorem Items.suffix {item : Writes α} (hi : ∀ {s x r}, item s x r → r <:+ s) {xs : List α}
    (h : Items item closing s xs r) : r <:+ s := by
  induction h with
  | none h => exact h.suffix
  | last hx h => exact h.suffix.trans (hi hx)
  | more hx h _ ih => exact ih.trans (h.suffix.trans (hi hx))

theorem Entry.suffix (hi : ∀ {s v r}, item s v r → r <:+ s) {e : Value × Value}
    (h : Entry item s e r) : r <:+ s := by
  obtain ⟨a, b, hk, hm, hv⟩ := h
  exact (hi hv).trans (hm.suffix.trans (hi hk))

theorem Form.suffix (hi : ∀ {s v r}, item s v r → r <:+ s) {v : Value} (h : Form item s v r) :
    r <:+ s := by
  cases h with
  | number h => exact h.suffix
  | signed _ ht h => exact (h.suffix.trans ht.suffix).trans (List.suffix_cons ..)
  | texts h => exact h.suffix
  | true h => exact h.suffix
  | false h => exact h.suffix
  | absent h => exact h.suffix
  | emptySet h ha hb => exact hb.suffix.trans (ha.suffix.trans h.suffix)
  | list h => exact (h.suffix hi).trans (List.suffix_cons ..)
  | emptyTuple h => exact h.suffix.trans (List.suffix_cons ..)
  | tuple h hm hs =>
    exact ((hs.suffix hi).trans (hm.suffix.trans (hi h))).trans (List.suffix_cons ..)
  | group h hm => exact (hm.suffix.trans (hi h)).trans (List.suffix_cons ..)
  | emptyMap h => exact h.suffix.trans (List.suffix_cons ..)
  | set h _ _ => exact (h.suffix hi).trans (List.suffix_cons ..)
  | map h _ _ => exact (h.suffix (Entry.suffix hi)).trans (List.suffix_cons ..)

end

theorem expr_suffix [Payloads] {d : Nat} {s r : List Char} {v : Value} (h : Expr d s v r) :
    r <:+ s := by
  obtain ⟨hd, t, ht, hf⟩ := expr_iff.1 h
  exact (hf.suffix expr_suffix).trans ht.suffix
termination_by maxDepth + 1 - d

/-! ## How values start -/

theorem isBlank_of_isDigit {c : Char} (h : c.isDigit = true) :
    isBlank c = false ∧ c ≠ '#' ∧ isDelimiter c = false := by
  obtain ⟨n, hn, rfl⟩ := exists_digitChar h
  have digits : ∀ n < 10, isBlank n.digitChar = false ∧ n.digitChar ≠ '#' ∧
      isDelimiter n.digitChar = false := by
    decide
  exact digits n hn

theorem opens_of_startsNumber {s : List Char} (h : startsNumber s = true) : Opens s := by
  unfold startsNumber at h
  split at h
  · exact ⟨'.', _, rfl, by decide, by decide, by decide⟩
  · exact ⟨_, _, rfl, isBlank_of_isDigit h⟩
  · cases h

theorem opens_of_startsText {s : List Char} (h : startsText s = true) : Opens s := by
  rcases startsText_cases h with ⟨q, t, rfl, hq⟩ | ⟨m, q, t, rfl, hm, _⟩
  · simp only [isQuote, Bool.or_eq_true, beq_iff_eq] at hq
    refine ⟨q, t, rfl, ?_⟩
    rcases hq with rfl | rfl <;> decide
  · simp only [isTextMark, Bool.or_eq_true, beq_iff_eq] at hm
    refine ⟨m, q :: t, rfl, ?_⟩
    rcases hm with ((rfl | rfl) | rfl) | rfl <;> decide

theorem opens_of_text {s r cs : List Char} (h : text s = .ok (cs, r)) : Opens s :=
  opens_of_startsText (startsText_of_text h)

section
variable [Payloads]

/-- What writes a value starts neither with trivia nor with a delimiter. -/
theorem Form.opens {item : Writes Value} {s r : List Char} {v : Value} (h : Form item s v r) :
    Opens s := by
  cases h with
  | number h => exact opens_of_startsNumber h.1
  | signed hs _ _ =>
    refine ⟨_, _, rfl, ?_⟩
    rcases hs with rfl | rfl <;> decide
  | texts h =>
    cases h with
    | one h => exact opens_of_text h
    | more h _ _ => exact opens_of_text h
  | true h => exact ⟨'T', _, h.1, by decide⟩
  | false h => exact ⟨'F', _, h.1, by decide⟩
  | absent h => exact ⟨'N', _, h.1, by decide⟩
  | emptySet h _ _ => exact ⟨'s', _, h.1, by decide⟩
  | list _ => exact ⟨'[', _, rfl, by decide⟩
  | emptyTuple _ => exact ⟨'(', _, rfl, by decide⟩
  | tuple _ _ _ => exact ⟨'(', _, rfl, by decide⟩
  | group _ _ => exact ⟨'(', _, rfl, by decide⟩
  | emptyMap _ => exact ⟨'\x7b', _, rfl, by decide⟩
  | set _ _ _ => exact ⟨'\x7b', _, rfl, by decide⟩
  | map _ _ _ => exact ⟨'\x7b', _, rfl, by decide⟩

/-- Behind the trivia a value starts. -/
theorem Expr.opens {d : Nat} {s r : List Char} {v : Value} (h : Expr d s v r) :
    Opens (dropTrivia s) := by
  obtain ⟨_, t, ht, hf⟩ := expr_iff.1 h
  rw [ht.eq_dropTrivia hf.opens.noTrivia]
  exact hf.opens

theorem expr_dropTrivia {d : Nat} {s r : List Char} {v : Value} :
    Expr d (dropTrivia s) v r ↔ Expr d s v r := by
  constructor
  · exact Expr.trivia (trivia_dropTrivia s)
  · intro h
    obtain ⟨hd, t, ht, hf⟩ := expr_iff.1 h
    rw [ht.eq_dropTrivia hf.opens.noTrivia]
    exact expr_iff.2 ⟨hd, t, .done t, hf⟩

end

end TypedSettings.Literal
