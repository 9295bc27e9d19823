import TypedSettings.Toml.Quoted

/-!
# Texts that stand for themselves

What a quoted text writes is shorter than what stands in the quotes if anything in it is an escape,
a quote or a line break. Main statement: between double quotes at the end of a document a text is
read as itself exactly if it has no quote, no backslash and no control character but the tab
(`quotedText_eq_ok_iff`).
-/

namespace TypedSettings.Toml

/-- The character stands for itself between double quotes. -/
def Verbatim (c : Char) : Prop := (c = '\t' ∨ ' ' ≤ c ∧ c ≠ '\x7f') ∧ c ≠ '\x22' ∧ c ≠ '\\'

instance (c : Char) : Decidable (Verbatim c) := inferInstanceAs (Decidable (_ ∧ _))

theorem isPlain_iff {c : Char} : isPlain c = true ↔ c = '\t' ∨ ' ' ≤ c ∧ c ≠ '\x7f' := by
  simp [isPlain]

/-- A text between double quotes on one line. -/
def basicStyle : TextStyle := ⟨'\x22', false⟩

section
variable {style : TextStyle} {s r t u : List Char} {c : Char} {n : Nat}

/-! ## What is read is shorter -/

theorem length_newline? (h : newline? s = some r) : r.length < s.length := by
  unfold newline? at h
  split at h <;> cases h
  · simp
  · simp only [List.length_cons]
    omega

theorem length_dropBlankLines_le (s : List Char) : (dropBlankLines s).length ≤ s.length := by
  fun_induction dropBlankLines s with
  | case1 => exact Nat.le_refl _
  | case2 r ih =>
    simp only [List.length_cons]
    omega
  | case3 c r _ _ ih =>
    simp only [List.length_cons]
    omega
  | case4 c r _ _ => exact Nat.le_refl _

theorem length_continuation? (h : continuation? s = some r) : r.length < s.length := by
  obtain ⟨t, ht, rfl⟩ := Option.map_eq_some_iff.1 h
  have hblanks := (List.dropWhile_suffix (l := s) isSpace).length_le
  have hbreak := length_newline? ht
  have hlines := length_dropBlankLines_le t
  omega

/-- An escape is longer than the character that it writes. -/
theorem length_escape (h : escape s = .ok (c, r)) : r.length < s.length := by
  unfold escape at h
  split at h
  · cases h
  · split at h
    · cases h
      simp
    · split at h
      · rename_i width hwidth
        cases h
        simp only [List.length_drop, List.length_cons]
        omega
      · cases h

/-- A piece is no longer than what it is read from. -/
theorem length_piece_le (h : style.piece s = .ok (u, r)) : u.length + r.length ≤ s.length := by
  unfold TextStyle.piece at h
  split at h
  · cases h
  · rename_i c rest
    simp only [List.length_cons]
    split at h
    · split at h
      · rename_i hjoin
        cases h
        split at hjoin
        · have hlt := length_continuation? hjoin
          simp only [List.length_nil]
          omega
        · cases hjoin
      · obtain ⟨d, r', hescape, hr⟩ := Step.next_eq_ok.1 h
        cases hr
        have hlt := length_escape hescape
        simp only [List.length_cons, List.length_nil]
        omega
    · split at h
      · rename_i hbreak
        cases h
        split at hbreak
        · have hlt := length_newline? hbreak
          simp only [List.length_cons, List.length_nil] at hlt ⊢
          omega
        · cases hbreak
      · split at h
        · cases h
          simp only [List.length_cons, List.length_nil]
          omega
        · cases h

theorem length_end? (h : style.end? s = some (u, r)) : u.length + r.length < s.length := by
  unfold TextStyle.end? at h
  split at h
  · simp only at h
    split at h
    · cases h
      have hrun := (List.takeWhile_prefix (l := s) (· == style.quote)).length_le
      simp only [List.length_replicate, List.length_drop]
      omega
    · cases h
  · split at h
    · cases h
    · split at h
      · cases h
        simp
      · cases h

/-- What stands in the quotes and behind them is shorter than the quotes with it. -/
theorem length_textBody (h : textBody style n s = .ok (u, r)) :
    u.length + r.length < s.length := by
  induction n generalizing s u r with
  | zero => cases h
  | succ n ih =>
    unfold textBody at h
    split at h
    · rename_i hend
      cases h
      exact length_end? hend
    · obtain ⟨piece, rest, hpiece, h⟩ := Step.next_eq_ok.1 h
      obtain ⟨body, after, hbody, h⟩ := Step.next_eq_ok.1 h
      cases h
      have hle := length_piece_le hpiece
      have hlt := ih hbody
      rw [List.length_append]
      omega

theorem length_textOf {x : String} (h : textOf style s = .ok (x, r)) :
    x.toList.length + r.length < s.length := by
  obtain ⟨u, after, hbody, hx⟩ := Step.next_eq_ok.1 h
  cases hx
  rw [String.toList_ofList]
  exact length_textBody hbody

/-! ## Nothing but itself -/

/-- A piece that is as long as what was read is one character that stands for itself. -/
theorem piece_of_length (h : basicStyle.piece (c :: s) = .ok (u, r))
    (hlen : s.length < u.length + r.length) (hc : c ≠ '\x22') :
    u = [c] ∧ r = s ∧ Verbatim c := by
  unfold TextStyle.piece at h
  simp only [basicStyle, Bool.false_eq_true, if_false] at h
  split at h
  · obtain ⟨d, r', hescape, hr⟩ := Step.next_eq_ok.1 h
    cases hr
    have hlt := length_escape hescape
    simp only [List.length_cons, List.length_nil] at hlen
    omega
  · rename_i hbackslash
    split at h
    · rename_i hplain
      cases h
      refine ⟨rfl, rfl, isPlain_iff.1 hplain, hc, fun hslash => hbackslash ⟨hslash, rfl⟩⟩
    · cases h

/-- A text that is as long as what was read stands in its quotes as it is. -/
theorem verbatim_of_length (h : textBody basicStyle n s = .ok (u, r))
    (hlen : s.length ≤ u.length + r.length + 1) :
    s = u ++ '\x22' :: r ∧ ∀ c ∈ u, Verbatim c := by
  induction n generalizing s u r with
  | zero => cases h
  | succ n ih =>
    unfold textBody at h
    cases s with
    | nil => cases h
    | cons c s =>
      by_cases hc : c = '\x22'
      · subst hc
        cases h
        exact ⟨rfl, by simp⟩
      · have hend : basicStyle.end? (c :: s) = none := by simp [TextStyle.end?, basicStyle, hc]
        rw [hend] at h
        obtain ⟨piece, rest, hpiece, h⟩ := Step.next_eq_ok.1 h
        obtain ⟨body, after, hbody, h⟩ := Step.next_eq_ok.1 h
        cases h
        have hle := length_piece_le hpiece
        have hlt := length_textBody hbody
        simp only [List.length_append, List.length_cons] at hlen hle
        obtain ⟨rfl, rfl, hverbatim⟩ := piece_of_length hpiece (by omega) hc
        obtain ⟨rfl, hall⟩ := ih hbody (by simp only [List.length_singleton] at hlen; omega)
        exact ⟨rfl, List.forall_mem_cons.2 ⟨hverbatim, hall⟩⟩

theorem textBody_verbatim (hu : ∀ c ∈ u, Verbatim c) (hn : u.length < n) (r : List Char) :
    textBody basicStyle n (u ++ '\x22' :: r) = .ok (u, r) := by
  induction u generalizing n with
  | nil =>
    cases n with
    | zero => exact absurd hn (Nat.not_lt_zero _)
    | succ n => rfl
  | cons c u ih =>
    obtain ⟨⟨hplain, hquote, hslash⟩, hrest⟩ := List.forall_mem_cons.1 hu
    cases n with
    | zero => exact absurd hn (Nat.not_lt_zero _)
    | succ n =>
      have hend : basicStyle.end? (c :: (u ++ '\x22' :: r)) = none := by
        simp [TextStyle.end?, basicStyle, hquote]
      have hpiece : basicStyle.piece (c :: (u ++ '\x22' :: r)) = .ok ([c], u ++ '\x22' :: r) := by
        simp [TextStyle.piece, basicStyle, hslash, isPlain_iff.2 hplain]
      rw [List.cons_append, textBody, hend]
      simp only [hpiece, Step.next, ih hrest (Nat.lt_of_succ_lt_succ hn), List.singleton_append]

end

/-- A text without quotes, backslashes and controls is read as itself. -/
theorem quotedText_verbatim {t : String} (ht : ∀ c ∈ t.toList, Verbatim c) :
    quotedText '\x22' (t.toList ++ ['\x22']) = .ok (t, []) := by
  have hsingle : skipTwo? '\x22' (t.toList ++ ['\x22']) = none := by
    cases h : t.toList with
    | nil => rfl
    | cons c cs =>
      rw [h] at ht
      have hc := (ht c List.mem_cons_self).2.1
      cases cs <;> simp [skipTwo?, hc]
  have hfuel : t.toList.length < (t.toList ++ ['\x22']).length + 1 := by
    rw [List.length_append]
    omega
  have hbody := textBody_verbatim ht hfuel []
  simp only [basicStyle] at hbody
  simp only [quotedText, hsingle, textOf, hbody, Step.next, String.ofList_toList]

theorem length_skipTwo? {c : Char} {s r : List Char} (h : skipTwo? c s = some r) :
    r.length + 2 = s.length := by
  unfold skipTwo? at h
  split at h
  · split at h
    · cases h
      rfl
    · cases h
  · cases h

/-- A text at the end of a document is read as itself exactly if it has no quote, no backslash and
no control but the tab. -/
theorem quotedText_eq_ok_iff {t : String} :
    (∃ r, quotedText '\x22' (t.toList ++ ['\x22']) = .ok (t, r)) ↔
      ∀ c ∈ t.toList, Verbatim c := by
  refine ⟨fun ⟨r, h⟩ => ?_, fun ht => ⟨[], quotedText_verbatim ht⟩⟩
  unfold quotedText at h
  split at h
  · -- two of the quotes would belong to the opening ones, so that the text would be too short
    rename_i rest hopen
    have hlen := length_textOf h
    have hopening := length_skipTwo? hopen
    have hbreak : ((newline? rest).getD rest).length ≤ rest.length := by
      cases hnew : newline? rest with
      | none => exact Nat.le_refl _
      | some r => exact Nat.le_of_lt (length_newline? hnew)
    rw [List.length_append, List.length_singleton] at hopening
    omega
  · obtain ⟨u, after, hbody, hx⟩ := Step.next_eq_ok.1 h
    cases hx
    rw [String.toList_ofList] at hbody ⊢
    have hlen : (u ++ ['\x22']).length ≤ u.length + r.length + 1 := by
      rw [List.length_append, List.length_singleton]
      omega
    exact (verbatim_of_length hbody hlen).2

end TypedSettings.Toml
