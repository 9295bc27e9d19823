import TypedSettings.Proofs.Text.Digits
import TypedSettings.Types.Token

/-!
# What the characters of a type expression spell

Which characters spell which tokens, as a relation: a lexeme is a mark, three dots, or a name that
reaches as far as characters go on with it, and blanks may stand between lexemes (`Spells`). Main
statements: the tokens cut from a text are those that its characters spell, and characters that
spell none are not cut (`exists_ofText_iff`); what is spelled apart may stand side by side where no
name runs on (`Spells.append`).
-/

namespace TypedSettings.Token

open Text

/-! ## Lexemes -/

/-- The first characters make one token: the characters from its start, the token, and the
characters that are left. -/
inductive Lexeme : List Char → Token → List Char → Prop where
  | opening (r : List Char) : Lexeme ('[' :: r) .opening r
  | closing (r : List Char) : Lexeme (']' :: r) .closing r
  | comma (r : List Char) : Lexeme (',' :: r) .comma r
  | bar (r : List Char) : Lexeme ('|' :: r) .bar r
  | dots (r : List Char) : Lexeme ('.' :: '.' :: '.' :: r) .dots r
  | name {c : Char} {run r : List Char} : startsName c = true →
      (∀ d ∈ run, continuesName d = true) → (∀ d ∈ r.head?, continuesName d = false) →
      Lexeme (c :: (run ++ r)) (.name (String.ofList (c :: run))) r

/-- Lexemes one after the other, with blanks before, between and after them. -/
inductive Spells : List Char → List Token → Prop where
  | done : Spells [] []
  | blank {c : Char} {s : List Char} {ts : List Token} : isBlank c = true → Spells s ts →
      Spells (c :: s) ts
  | lexeme {s r : List Char} {t : Token} {ts : List Token} : Lexeme s t r → Spells r ts →
      Spells s (t :: ts)

/-- A text that may be a name: a character that starts names, and more that go on with them. -/
def IsName (name : String) : Prop :=
  ∃ c run, name.toList = c :: run ∧ startsName c = true ∧ ∀ d ∈ run, continuesName d = true

/-- No blank starts a name. -/
theorem startsName_of_isBlank {c : Char} (h : isBlank c = true) : startsName c = false :=
  of_isBlank (P := (startsName · = false)) (by decide +kernel) h

theorem Lexeme.not_blank {c : Char} {s r : List Char} {t : Token} (h : Lexeme (c :: s) t r) :
    isBlank c = false := by
  cases h with
  | name hc _ _ =>
    refine Bool.eq_false_iff.2 fun hb => ?_
    rw [startsName_of_isBlank hb] at hc
    cases hc
  | _ => decide

theorem Lexeme.length_lt {s r : List Char} {t : Token} (h : Lexeme s t r) :
    r.length < s.length := by
  cases h <;> simp only [List.length_cons, List.length_append] <;> omega

/-! ## Cutting characters into tokens -/

theorem lexeme_of_starting? {c : Char} {r : List Char} {t : Token} {n : Nat}
    (h : starting? c r = some (t, n)) : Lexeme (c :: r) t (r.drop n) := by
  unfold starting? at h
  split at h
  · cases h
    exact .opening r
  · cases h
    exact .closing r
  · cases h
    exact .comma r
  · cases h
    exact .bar r
  · cases h
    exact .dots _
  · split at h
    · rename_i hc
      cases h
      obtain ⟨run, rest, rfl, hrun, hrest⟩ := exists_run continuesName r
      rw [(takeWhile_run hrun hrest).1, List.drop_left]
      exact .name hc hrun hrest
    · cases h

theorem exists_starting? {c : Char} {s r : List Char} {t : Token} (h : Lexeme (c :: s) t r) :
    ∃ n, starting? c s = some (t, n) ∧ s.drop n = r := by
  cases h with
  | @name _ run _ hc hrun hr =>
    refine ⟨run.length, ?_, List.drop_left⟩
    have hstart : ∀ d : Char, startsName d = false → c ≠ d := by
      rintro d hd rfl
      rw [hd] at hc
      cases hc
    unfold starting?
    split
    · exact absurd rfl (hstart '[' (by decide))
    · exact absurd rfl (hstart ']' (by decide))
    · exact absurd rfl (hstart ',' (by decide))
    · exact absurd rfl (hstart '|' (by decide))
    · exact absurd rfl (hstart '.' (by decide))
    · rw [if_pos hc, (takeWhile_run hrun hr).1]
  | dots r => exact ⟨2, rfl, rfl⟩
  | _ => exact ⟨0, rfl, rfl⟩

/-- The characters that belong to the token before are passed over. -/
theorem scan_skip (n position : Nat) (s : List Char) :
    ∃ p, scan n position s = scan 0 p (s.drop n) := by
  induction s generalizing n position with
  | nil => exact ⟨position, by simp [scan]⟩
  | cons c s ih =>
    cases n with
    | zero => exact ⟨position, rfl⟩
    | succ n => exact ih n (position + c.utf8Size)

/-- What is cut from the characters is what they spell. -/
theorem spells_of_scan {position : Nat} {s : List Char} {ps : List Placed}
    (h : scan 0 position s = .ok ps) : Spells s (ps.map Placed.token) := by
  match s with
  | [] =>
    cases h
    exact .done
  | c :: r =>
    simp only [scan] at h
    split at h
    · exact .blank ‹_› (spells_of_scan h)
    · split at h
      · cases h
      · rename_i token taken hstart
        have hlexeme := lexeme_of_starting? hstart
        have := hlexeme.length_lt
        split at h
        · rename_i qs hqs
          cases h
          obtain ⟨p, hp⟩ := scan_skip taken (position + c.utf8Size) r
          rw [hp] at hqs
          exact .lexeme hlexeme (spells_of_scan hqs)
        · cases h
termination_by s.length

/-- What the characters spell is cut from them. -/
theorem Spells.exists_scan {s : List Char} {ts : List Token} (h : Spells s ts) (position : Nat) :
    ∃ ps, scan 0 position s = .ok ps ∧ ps.map Placed.token = ts := by
  induction h generalizing position with
  | done => exact ⟨[], rfl, rfl⟩
  | @blank c s ts hc _ ih =>
    obtain ⟨ps, hps, hts⟩ := ih (position + c.utf8Size)
    exact ⟨ps, by simp [scan, hc, hps], hts⟩
  | @lexeme s r t ts hl _ ih =>
    cases s with
    | nil => exact absurd hl.length_lt (Nat.not_lt_zero _)
    | cons c s =>
      obtain ⟨n, hn, rfl⟩ := exists_starting? hl
      obtain ⟨p, hp⟩ := scan_skip n (position + c.utf8Size) s
      obtain ⟨ps, hps, hts⟩ := ih p
      refine ⟨⟨position, t⟩ :: ps, ?_, by simp [hts]⟩
      simp [scan, hl.not_blank, hn, hp, hps]

/-- A text is cut into tokens exactly if it spells them. -/
theorem exists_ofText_iff {s : String} {ts : List Token} :
    (∃ ps, ofText s = .ok ps ∧ ps.map Placed.token = ts) ↔ Spells s.toList ts := by
  constructor
  · rintro ⟨ps, hps, rfl⟩
    exact spells_of_scan hps
  · intro h
    exact h.exists_scan 0

/-! ## Side by side -/

section
variable {s r : List Char}

theorem Lexeme.append {t : Token} {a : List Char} (h : Lexeme s t a)
    (hr : ∀ c ∈ r.head?, continuesName c = false) : Lexeme (s ++ r) t (a ++ r) := by
  cases h with
  | @name c run _ hc hrun ha =>
    rw [List.cons_append, List.append_assoc]
    refine .name hc hrun fun d hd => ?_
    cases a with
    | nil => exact hr d hd
    | cons x a => exact ha d hd
  | opening => exact .opening _
  | closing => exact .closing _
  | comma => exact .comma _
  | bar => exact .bar _
  | dots => exact .dots _

/-- Characters side by side spell what they spell apart, unless the second go on with a name. -/
theorem Spells.append {ts us : List Token} (h : Spells s ts) (hu : Spells r us)
    (hr : ∀ c ∈ r.head?, continuesName c = false) : Spells (s ++ r) (ts ++ us) := by
  induction h with
  | done => exact hu
  | blank hc _ ih => exact .blank hc ih
  | lexeme hl _ ih => exact .lexeme (hl.append hr) ih

end

/-- A character that names do not go on with keeps them apart from what it starts. -/
theorem head_stops {c : Char} (h : continuesName c = false) (r : List Char) :
    ∀ d ∈ (c :: r).head?, continuesName d = false := by
  intro d hd
  cases hd
  exact h

/-! ## Names -/

theorem isName_of_all {name : String} {c : Char} {run : List Char} (hname : name.toList = c :: run)
    (hc : startsName c = true) (hrun : run.all continuesName = true) : IsName name :=
  ⟨c, run, hname, hc, List.all_eq_true.1 hrun⟩

theorem spells_name {name : String} (h : IsName name) : Spells name.toList [.name name] := by
  obtain ⟨c, run, hname, hc, hrun⟩ := h
  have hlexeme := Lexeme.name (r := []) hc hrun (by simp)
  rw [List.append_nil, ← hname, String.ofList_toList] at hlexeme
  exact .lexeme hlexeme .done

/-- The names that characters spell may be names. -/
theorem Spells.isName {s : List Char} {ts : List Token} (h : Spells s ts) {name : String}
    (hn : .name name ∈ ts) : IsName name := by
  induction h with
  | done => cases hn
  | blank _ _ ih => exact ih hn
  | lexeme hl _ ih =>
    rcases List.mem_cons.1 hn with rfl | hn
    · cases hl with
      | @name c run _ hc hrun _ => exact ⟨c, run, String.toList_ofList, hc, hrun⟩
    · exact ih hn

end TypedSettings.Token
