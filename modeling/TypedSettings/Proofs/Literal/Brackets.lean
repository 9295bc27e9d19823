import TypedSettings.Proofs.Literal.Tokens

/-!
# Open brackets

What stands outside texts and comments (`outside`), and how many brackets are open after a part of
it (`openAfter`). A stretch of the characters changes the number of open brackets by as much
wherever it stands (`Levels`): one bracket changes it by one, trivia and text tokens do not change
it (`levels_dropTrivia`, `levels_text`).
-/

namespace TypedSettings.Literal

open Text

/-! ## Outside texts and comments -/

/-- The characters after the closing quotes of a text. The flag says whether a backslash stands
before them, which takes the next character with it. -/
def dropText (closing : List Char) : Bool → List Char → List Char
  | _, [] => []
  | true, _ :: r => dropText closing false r
  | false, c :: r => (dropStart? closing (c :: r)).getD (dropText closing (c == '\\') r)

/-- The characters after a text whose opening quote is given, which may be the first of three. -/
def afterText (quote : Char) (s : List Char) : List Char :=
  if opensTriple quote s then dropText [quote, quote, quote] false (s.drop 2)
  else dropText [quote] false s

theorem dropText_of_closing {closing s r : List Char} (hne : closing ≠ [])
    (h : dropStart? closing s = some r) : dropText closing false s = r := by
  cases s with
  | nil =>
    obtain ⟨q, qs, rfl⟩ := List.exists_cons_of_ne_nil hne
    cases h
  | cons c s => rw [dropText, h, Option.getD_some]

theorem length_dropText_le (closing : List Char) (escaped : Bool) (s : List Char) :
    (dropText closing escaped s).length ≤ s.length := by
  induction s generalizing escaped with
  | nil => exact Nat.le_refl _
  | cons c s ih =>
    cases escaped with
    | true => exact Nat.le_succ_of_le (ih false)
    | false =>
      rw [dropText]
      cases h : dropStart? closing (c :: s) with
      | some r => exact (dropStart?_suffix h).length_le
      | none => exact Nat.le_succ_of_le (ih _)

theorem length_afterText_le (quote : Char) (s : List Char) :
    (afterText quote s).length ≤ s.length := by
  unfold afterText
  split
  · exact Nat.le_trans (length_dropText_le ..) (List.drop_suffix ..).length_le
  · exact length_dropText_le ..

/-- What stands outside texts and comments. -/
def outside : List Char → List Char
  | [] => []
  | c :: r =>
    if c = '#' then outside (r.dropWhile (· ≠ '\n'))
    else if isQuote c then outside (afterText c r)
    else c :: outside r
termination_by s => s.length
decreasing_by
  · exact Nat.lt_succ_of_le (List.dropWhile_suffix _).length_le
  · exact Nat.lt_succ_of_le (length_afterText_le c r)
  · exact Nat.lt_succ_self _

/-! ## Brackets -/

def isOpening (c : Char) : Bool := c == '[' || c == '(' || c == '\x7b'

def isClosing (c : Char) : Bool := c == ']' || c == ')' || c == '\x7d'

/-- How many brackets are open after some characters, so many having been open before. -/
def openAfter (n : Nat) (s : List Char) : Nat :=
  s.foldl (fun n c => if isOpening c then n + 1 else if isClosing c then n - 1 else n) n

/-- The greatest number of brackets that are open anywhere in the characters. -/
def mostOpen (n : Nat) : List Char → Nat
  | [] => n
  | c :: s => max n (mostOpen (openAfter n [c]) s)

theorem le_mostOpen (n : Nat) (s : List Char) : n ≤ mostOpen n s := by
  cases s with
  | nil => exact Nat.le_refl n
  | cons c s => exact Nat.le_max_left ..

theorem openAfter_le_mostOpen (n : Nat) (before after : List Char) :
    openAfter n before ≤ mostOpen n (before ++ after) := by
  induction before generalizing n with
  | nil => exact le_mostOpen n after
  | cons c before ih => exact Nat.le_trans (ih (openAfter n [c])) (Nat.le_max_right ..)

/-- Up to the second, the characters lead from one number of open brackets to another, however many
more are open all the time. -/
def Levels (a b : Nat) (s r : List Char) : Prop :=
  ∃ ds, outside s = ds ++ outside r ∧ ∀ n, openAfter (n + a) ds = n + b

section
variable {a b c k : Nat} {s t r : List Char} {d : Char}

theorem Levels.refl (a : Nat) (s : List Char) : Levels a a s s := ⟨[], rfl, fun _ => rfl⟩

theorem Levels.trans (h : Levels a b s t) (h' : Levels b c t r) : Levels a c s r := by
  obtain ⟨ds, hs, hds⟩ := h
  obtain ⟨es, ht, hes⟩ := h'
  refine ⟨ds ++ es, by rw [hs, ht, List.append_assoc], fun n => ?_⟩
  rw [openAfter, List.foldl_append]
  change openAfter (openAfter (n + a) ds) es = _
  rw [hds, hes]

theorem Levels.lift (h : Levels a b s r) (k : Nat) : Levels (a + k) (b + k) s r := by
  obtain ⟨ds, hs, hds⟩ := h
  refine ⟨ds, hs, fun n => ?_⟩
  rw [Nat.add_comm a, Nat.add_comm b, ← Nat.add_assoc, ← Nat.add_assoc, hds]

/-! ## Single characters -/

/-- The characters that open or close brackets, or start texts and comments. -/
def specials : List Char := ['[', '(', '\x7b', ']', ')', '\x7d', '\x27', '\x22', '#']

theorem not_special_of_kind {p : Char → Bool} (hd : p d = true) (hp : specials.any p = false) :
    d ∉ specials :=
  fun h => List.any_eq_false.1 hp d h hd

theorem outside_cons (hd : d ≠ '#') (hq : isQuote d = false) (s : List Char) :
    outside (d :: s) = d :: outside s := by
  rw [outside, if_neg hd, hq, if_neg Bool.false_ne_true]

theorem levels_cons (hd : d ≠ '#') (hq : isQuote d = false)
    (h : ∀ n, openAfter (n + a) [d] = n + b) : Levels a b (d :: s) s :=
  ⟨[d], outside_cons hd hq s, h⟩

theorem levels_opening (h : isOpening d = true) (a : Nat) : Levels a (a + 1) (d :: s) s := by
  have hd : (d = '[' ∨ d = '(') ∨ d = '\x7b' := by simpa [isOpening] using h
  rcases hd with (rfl | rfl) | rfl <;> exact levels_cons (by decide) rfl fun _ => rfl

theorem levels_closing (h : isClosing d = true) (a : Nat) : Levels (a + 1) a (d :: s) s := by
  have hd : (d = ']' ∨ d = ')') ∨ d = '\x7d' := by simpa [isClosing] using h
  rcases hd with (rfl | rfl) | rfl <;> exact levels_cons (by decide) rfl fun _ => rfl

theorem levels_of_not_special (h : d ∉ specials) (a : Nat) : Levels a a (d :: s) s := by
  simp only [specials, List.mem_cons, List.not_mem_nil, or_false, not_or] at h
  refine levels_cons (by simp [h]) (by simp [isQuote, h]) fun n => ?_
  simp [openAfter, isOpening, isClosing, h]

theorem levels_run {run : List Char} (h : ∀ d ∈ run, d ∉ specials) (a : Nat) (s : List Char) :
    Levels a a (run ++ s) s := by
  induction run with
  | nil => exact .refl a s
  | cons d run ih =>
    obtain ⟨hd, hrun⟩ := List.forall_mem_cons.1 h
    exact (levels_of_not_special hd a).trans (ih hrun)

/-! ## Trivia -/

theorem Trivia.levels (h : Trivia s r) (a : Nat) : Levels a a s r := by
  induction h with
  | done s => exact .refl a s
  | blank hc _ ih =>
    exact (levels_of_not_special (not_special_of_kind hc (by decide)) a).trans ih
  | @comment body s r hbody hend _ ih =>
    have hdrop : (body ++ s).dropWhile (· ≠ '\n') = s := by
      refine (takeWhile_run (fun c hc => ?_) fun c hc => ?_).2
      · simpa using hbody c hc
      · simpa using hend c hc
    refine Levels.trans ⟨[], ?_, fun _ => rfl⟩ ih
    rw [outside, if_pos rfl, hdrop, List.nil_append]

theorem levels_dropTrivia (a : Nat) (s : List Char) : Levels a a s (dropTrivia s) :=
  (trivia_dropTrivia s).levels a

/-! ## Texts -/

/-- Digits neither close a text nor escape what follows. -/
theorem dropText_run {quote : Char} {closing run : List Char} (hq : isQuote quote = true)
    (hrun : ∀ d ∈ run, isDigitOf 16 d = true) (s : List Char) :
    dropText (quote :: closing) false (run ++ s) = dropText (quote :: closing) false s := by
  induction run with
  | nil => rfl
  | cons d run ih =>
    obtain ⟨hd, hrun⟩ := List.forall_mem_cons.1 hrun
    have hquote : quote ≠ d := by
      simp only [isQuote, Bool.or_eq_true, beq_iff_eq] at hq
      rcases hq with rfl | rfl <;> exact (ne_of_kind hd (by decide)).symm
    have hslash : (d == '\\') = false := beq_false_of_ne (ne_of_kind hd (by decide))
    rw [List.cons_append, dropText, dropStart?, if_neg hquote, hslash, Option.getD_none, ih hrun]

/-- What is left of a text that was read is left when it is passed over. -/
theorem dropText_of_textBody {style : TextStyle} {start cs : List Char} {fuel : Nat}
    (hq : isQuote style.quote = true) (h : textBody style start fuel s = .ok (cs, r)) :
    dropText style.closing false s = r := by
  have hclosing : ∃ rest, style.closing = style.quote :: rest := by
    unfold TextStyle.closing
    split <;> exact ⟨_, rfl⟩
  obtain ⟨rest, hrest⟩ := hclosing
  induction fuel generalizing s cs with
  | zero => cases h
  | succ fuel ih =>
    rw [textBody.eq_def] at h
    simp only at h
    split at h
    · rename_i r' hd
      cases h
      exact dropText_of_closing (by rw [hrest]; exact List.cons_ne_nil _ _) hd
    · cases h
    · cases h
    · rename_i c u hd
      obtain ⟨piece, r₁, he, h⟩ := Step.next_eq_ok.1 h
      obtain ⟨cs', r₂, hb, h⟩ := Step.next_eq_ok.1 h
      cases h
      obtain ⟨run, rfl, hrun⟩ := TextStyle.exists_run_of_escape he
      rw [dropText, hd, Option.getD_none]
      change dropText style.closing false (run ++ r₁) = _
      rw [hrest, dropText_run hq hrun, ← hrest]
      exact ih hb
    · rename_i c u hlast hslash hd
      split at h
      · cases h
      · obtain ⟨cs', r₁, hb, h⟩ := Step.next_eq_ok.1 h
        cases h
        -- a backslash is never read as a character of its own
        have hc : (c == '\\') = false := by
          refine beq_false_of_ne fun hc => ?_
          cases u with
          | nil => exact hlast hc rfl
          | cons d u => exact hslash d u hc rfl
        rw [dropText, hd, Option.getD_none, hc]
        exact ih hb

/-- A text token leaves as many brackets open as were open before. -/
theorem levels_text {cs : List Char} (h : text s = .ok (cs, r)) (a : Nat) : Levels a a s r := by
  have hquoted : ∀ {raw : Bool} {quote : Char} {t : List Char}, textMark s = (raw, quote :: t) →
      Levels a a (quote :: t) r := by
    intro raw quote t hmark
    rw [text, hmark] at h
    simp only at h
    split at h
    · rename_i hq
      have hne : quote ≠ '#' := by
        rintro rfl
        cases hq
      have hafter : afterText quote t = r := by
        have hdrop := dropText_of_textBody hq h
        unfold afterText
        unfold TextStyle.closing at hdrop
        split <;> simp_all
      refine ⟨[], ?_, fun _ => rfl⟩
      rw [outside, if_neg hne, if_pos hq, hafter, List.nil_append]
    · cases h
  cases s with
  | nil => cases h
  | cons c s =>
    by_cases hc : isTextMark c = true
    · have hmark : textMark (c :: s) = (c == 'r' || c == 'R', s) := if_pos hc
      cases s with
      | nil =>
        rw [text, hmark] at h
        cases h
      | cons quote t =>
        -- the mark in front of the quotes neither opens nor closes a bracket
      exact (levels_of_not_special (not_special_of_kind hc (by decide)) a).trans (hquoted hmark)
    · exact hquoted (if_neg hc)

example : outside "[R'\\'[', # (\n \"\"\"]\"\"\"]".toList = "[R, \n ]".toList := by cbv

end

end TypedSettings.Literal
