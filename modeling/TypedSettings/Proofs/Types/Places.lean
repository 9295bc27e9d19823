import TypedSettings.Proofs.Types.Tokens

/-!
# Places in a type expression

A place in a text is the number of bytes before the characters that are left there, which are the
bytes of whole characters (`StandsAt`). Cutting a text into tokens goes from place to place
(`Scanned`), and the tokens that start on its way, with all of their characters, are the ones that
are cut. Main statement: every token stands at its position, and so does the character that is cut
into no token (`standsAt_of_ofText`, `standsAt_of_stray`).
-/

namespace TypedSettings.Token

open Text

/-! ## Places -/

/-- The text goes on with the rest at the position: the bytes before are those of characters. -/
def StandsAt (text : String) (position : Nat) (rest : String) : Prop :=
  ∃ before, text = before ++ rest ∧ position = before.utf8ByteSize

section
variable {text rest : String} {position : Nat}

theorem StandsAt.le (h : StandsAt text position rest) : position ≤ text.utf8ByteSize := by
  obtain ⟨before, rfl, rfl⟩ := h
  rw [String.utf8ByteSize_append]
  exact Nat.le_add_right ..

theorem standsAt_start (text : String) : StandsAt text 0 text :=
  ⟨"", by rw [String.empty_append], rfl⟩

theorem standsAt_end (text : String) : StandsAt text text.utf8ByteSize "" :=
  ⟨text, by rw [String.append_empty], rfl⟩

theorem StandsAt.tail {c : Char} {r : List Char}
    (h : StandsAt text position (String.ofList (c :: r))) :
    StandsAt text (position + c.utf8Size) (String.ofList r) := by
  obtain ⟨before, rfl, rfl⟩ := h
  refine ⟨before ++ String.singleton c, ?_, ?_⟩
  · rw [String.ofList_cons, String.append_assoc]
  · rw [String.utf8ByteSize_append, String.utf8ByteSize_singleton]

end

/-! ## The characters of tokens -/

def text : Token → String
  | name s => s
  | opening => "["
  | closing => "]"
  | comma => ","
  | bar => "|"
  | dots => "..."

theorem Lexeme.text_append {s r : List Char} {t : Token} (h : Lexeme s t r) :
    String.ofList s = t.text ++ String.ofList r := by
  rw [← String.toList_inj]
  cases h <;> simp [text]

/-- A token takes no more characters than there are. -/
theorem taken_le {c : Char} {r : List Char} {t : Token} {n : Nat}
    (h : starting? c r = some (t, n)) : n ≤ r.length := by
  unfold starting? at h
  split at h
  · cases h
    exact Nat.zero_le _
  · cases h
    exact Nat.zero_le _
  · cases h
    exact Nat.zero_le _
  · cases h
    exact Nat.zero_le _
  · cases h
    exact Nat.le_add_left ..
  · split at h
    · cases h
      exact (List.takeWhile_prefix _).length_le
    · cases h

/-! ## Cutting a text -/

/-- What cutting a text comes to: how many characters belong to the token before, the bytes that
stand before, and the characters that are left. -/
inductive Scanned (s : List Char) : Nat → Nat → List Char → Prop where
  | start : Scanned s 0 0 s
  | skip {n position : Nat} {c : Char} {r : List Char} : Scanned s (n + 1) position (c :: r) →
      Scanned s n (position + c.utf8Size) r
  | blank {position : Nat} {c : Char} {r : List Char} : Scanned s 0 position (c :: r) →
      isBlank c = true → Scanned s 0 (position + c.utf8Size) r
  | token {n position : Nat} {c : Char} {r : List Char} {t : Token} :
      Scanned s 0 position (c :: r) → starting? c r = some (t, n) →
      Scanned s n (position + c.utf8Size) r

section
variable {expression : String} {skip position : Nat} {s left : List Char}

/-- Cutting goes from place to place, and passes over no more characters than there are. -/
theorem Scanned.standsAt (h : Scanned expression.toList skip position left) :
    StandsAt expression position (String.ofList left) ∧ skip ≤ left.length := by
  induction h with
  | start =>
    rw [String.ofList_toList]
    exact ⟨standsAt_start expression, Nat.zero_le _⟩
  | skip _ ih => exact ⟨ih.1.tail, Nat.le_of_succ_le_succ ih.2⟩
  | blank _ _ ih => exact ⟨ih.1.tail, Nat.zero_le _⟩
  | token _ ht ih => exact ⟨ih.1.tail, taken_le ht⟩

/-- A token that starts on the way stands there. -/
theorem Scanned.standsAt_text {c : Char} {r : List Char} {t : Token} {n : Nat}
    (h : Scanned expression.toList skip position (c :: r)) (ht : starting? c r = some (t, n)) :
    StandsAt expression position (t.text ++ String.ofList (r.drop n)) := by
  rw [← (lexeme_of_starting? ht).text_append]
  exact h.standsAt.1

/-- Tokens that are cut from here on start on the way. -/
theorem Scanned.of_scan {ps : List Placed} (h : Scanned s skip position left)
    (hscan : scan skip position left = .ok ps) :
    ∀ p ∈ ps, ∃ c r n, Scanned s 0 p.position (c :: r) ∧ starting? c r = some (p.token, n) := by
  induction left generalizing skip position ps with
  | nil =>
    cases hscan
    exact fun p hp => absurd hp List.not_mem_nil
  | cons c r ih =>
    unfold scan at hscan
    split at hscan
    · exact ih h.skip hscan
    · split at hscan
      · exact ih (h.blank ‹_›) hscan
      · split at hscan
        · cases hscan
        · rename_i token taken ht
          split at hscan
          · rename_i qs hqs
            cases hscan
            intro p hp
            rcases List.mem_cons.1 hp with rfl | hp
            · exact ⟨c, r, taken, h, ht⟩
            · exact ih (h.token ht) hqs p hp
          · cases hscan

/-- So does a character that is cut into no token. -/
theorem Scanned.of_stray {stray : Stray} (h : Scanned s skip position left)
    (hscan : scan skip position left = .error stray) :
    ∃ r, Scanned s 0 stray.position (stray.char :: r) := by
  induction left generalizing skip position with
  | nil => cases hscan
  | cons c r ih =>
    unfold scan at hscan
    split at hscan
    · exact ih h.skip hscan
    · split at hscan
      · exact ih (h.blank ‹_›) hscan
      · split at hscan
        · cases hscan
          exact ⟨r, h⟩
        · split at hscan
          · cases hscan
          · cases hscan
            exact ih (h.token ‹_›) ‹_›

/-- Every token that a text is cut into stands at its position. -/
theorem standsAt_of_ofText {ps : List Placed} (h : ofText expression = .ok ps) {p : Placed}
    (hp : p ∈ ps) : ∃ rest, StandsAt expression p.position (p.token.text ++ rest) := by
  obtain ⟨c, r, n, hscanned, ht⟩ := Scanned.start.of_scan h p hp
  exact ⟨_, hscanned.standsAt_text ht⟩

theorem standsAt_of_stray {stray : Stray} (h : ofText expression = .error stray) :
    ∃ rest, StandsAt expression stray.position (String.singleton stray.char ++ rest) := by
  obtain ⟨r, hscanned⟩ := Scanned.start.of_stray h
  refine ⟨String.ofList r, ?_⟩
  rw [← String.ofList_cons]
  exact hscanned.standsAt.1

end

end TypedSettings.Token
