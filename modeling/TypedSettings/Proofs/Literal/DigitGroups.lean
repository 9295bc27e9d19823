import TypedSettings.Literal.Numeral
import TypedSettings.Proofs.Text.Digits

/-!
# Groups of digits

Digits with single underscores between them, as a relation between the characters and the digits
they write (`Grouped`). A run of digits and underscores, taken as long as it gets, is read exactly
if it is grouped (`digitRun_run`); so what is read of any characters is their longest run
(`digitRun_eq_ok_iff`).
-/

namespace TypedSettings.Literal

open Text

/-- The characters write the digits: single underscores may stand between the digits, and one in
front of them if the flag is set. -/
inductive Grouped (isDigit : Char → Bool) : Bool → List Char → List Char → Prop where
  | done (mayPause : Bool) : Grouped isDigit mayPause [] []
  | digit {mayPause : Bool} {c : Char} {run ds : List Char} : isDigit c = true →
      Grouped isDigit true run ds → Grouped isDigit mayPause (c :: run) (c :: ds)
  | pause {c : Char} {run ds : List Char} : isDigit c = true → Grouped isDigit true run ds →
      Grouped isDigit true ('_' :: c :: run) (c :: ds)

/-- Whether the character can stand in a run of digits. -/
def inRun (isDigit : Char → Bool) (c : Char) : Bool := isDigit c || c == '_'

section
variable {isDigit : Char → Bool} {mayPause : Bool} {run ds s r : List Char}

theorem Grouped.forall_inRun (h : Grouped isDigit mayPause run ds) :
    ∀ c ∈ run, inRun isDigit c = true := by
  induction h with
  | done => exact List.forall_mem_nil _
  | digit hc _ ih => exact List.forall_mem_cons.2 ⟨by simp [inRun, hc], ih⟩
  | pause hc _ ih =>
    exact List.forall_mem_cons.2 ⟨by simp [inRun],
      List.forall_mem_cons.2 ⟨by simp [inRun, hc], ih⟩⟩

theorem Grouped.eq_nil_iff (h : Grouped isDigit mayPause run ds) : ds = [] ↔ run = [] := by
  cases h <;> simp

/-- Grouped digits with nothing before them start with a digit. -/
theorem Grouped.head_isDigit (h : Grouped isDigit false run ds) (hne : ds ≠ []) :
    ∃ d run', run = d :: run' ∧ isDigit d = true := by
  cases h with
  | done => exact absurd rfl hne
  | digit hd _ => exact ⟨_, _, rfl, hd⟩

/-- Digits are grouped without underscores. -/
theorem grouped_digits (mayPause : Bool) (h : ∀ c ∈ ds, isDigit c = true) :
    Grouped isDigit mayPause ds ds := by
  induction ds generalizing mayPause with
  | nil => exact .done mayPause
  | cons c ds ih =>
    obtain ⟨hc, hds⟩ := List.forall_mem_cons.1 h
    exact .digit hc (ih true hds)

/-- Grouped digits are read up to where no digit and no underscore stands. -/
theorem Grouped.digitRun_eq (h : Grouped isDigit mayPause run ds) (hpause : isDigit '_' = false)
    (hr : ∀ c ∈ r.head?, inRun isDigit c = false) :
    digitRun isDigit mayPause (run ++ r) = .ok (ds, r) := by
  induction h with
  | done =>
    cases r with
    | nil => rfl
    | cons c r =>
      have hc := hr c rfl
      rw [inRun, Bool.or_eq_false_iff, beq_eq_false_iff_ne] at hc
      simp [digitRun, hc.1, hc.2]
  | digit hc _ ih => simp [digitRun, hc, ih, Step.next]
  | pause hc _ ih => simp [digitRun, hpause, hc, ih, Step.next]

/-- A run writes no other digits. -/
theorem Grouped.unique {ds' : List Char} (h : Grouped isDigit mayPause run ds)
    (h' : Grouped isDigit mayPause run ds') (hpause : isDigit '_' = false) : ds = ds' := by
  have hds := h.digitRun_eq (r := []) hpause (by simp)
  rw [h'.digitRun_eq hpause (by simp)] at hds
  cases hds
  rfl

/-- What is read as digits is grouped, and ends where no digit and no underscore stands. -/
theorem exists_run_of_digitRun (h : digitRun isDigit mayPause s = .ok (ds, r)) :
    ∃ run, s = run ++ r ∧ Grouped isDigit mayPause run ds ∧
      ∀ c ∈ r.head?, inRun isDigit c = false := by
  induction s generalizing mayPause ds with
  | nil =>
    cases h
    exact ⟨[], rfl, .done _, by simp⟩
  | cons c s ih =>
    rw [digitRun] at h
    split at h
    · rename_i hc
      obtain ⟨ds', r', hd, h⟩ := Step.next_eq_ok.1 h
      cases h
      obtain ⟨run, rfl, hrun, hr⟩ := ih hd
      exact ⟨c :: run, rfl, .digit hc hrun, hr⟩
    · rename_i hc
      split at h
      · rename_i hu
        split at h
        · rename_i hpause
          rw [Bool.and_eq_true] at hpause
          obtain ⟨run, rfl, hrun, hr⟩ := ih h
          rw [hpause.1, hu]
          -- a digit follows the underscore, so that the run does not end with it
          cases hrun with
          | done =>
            obtain ⟨d, hd, hdigit⟩ := (Option.any_eq_true _ _).1 hpause.2
            have hend := hr d hd
            simp [inRun, hdigit] at hend
          | digit hd hrun => exact ⟨_, rfl, .pause hd hrun, hr⟩
        · cases h
      · rename_i hu
        cases h
        exact ⟨[], rfl, .done _, by simp [inRun, hc, hu]⟩

theorem digitRun_eq_ok_iff (hpause : isDigit '_' = false) :
    digitRun isDigit mayPause s = .ok (ds, r) ↔
      ∃ run, s = run ++ r ∧ Grouped isDigit mayPause run ds ∧
        ∀ c ∈ r.head?, inRun isDigit c = false := by
  refine ⟨exists_run_of_digitRun, ?_⟩
  rintro ⟨run, rfl, hrun, hr⟩
  exact hrun.digitRun_eq hpause hr

/-- A run of digits and underscores is read as a whole or not at all. -/
theorem digitRun_run {r' : List Char} (hpause : isDigit '_' = false)
    (hrun : ∀ c ∈ run, inRun isDigit c = true) (hr : ∀ c ∈ r.head?, inRun isDigit c = false) :
    digitRun isDigit mayPause (run ++ r) = .ok (ds, r') ↔
      Grouped isDigit mayPause run ds ∧ r' = r := by
  constructor
  · intro h
    obtain ⟨run', happend, hgrouped, hr'⟩ := exists_run_of_digitRun h
    have hlongest := takeWhile_run hrun hr
    rw [happend] at hlongest
    obtain ⟨hsame, hrest⟩ := takeWhile_run hgrouped.forall_inRun hr'
    exact ⟨hlongest.1 ▸ hsame.symm ▸ hgrouped, hrest.symm.trans hlongest.2⟩
  · rintro ⟨hgrouped, rfl⟩
    exact hgrouped.digitRun_eq hpause hr

end

end TypedSettings.Literal
