import TypedSettings.Definition.Reference
import TypedSettings.Proofs.Text.Digits

/-!
# Texts with references

A text may be given by its lines and these by their pieces. Where no other character is a dollar
sign, the lines and the pieces are found again (`lines_written`, `pieces_written`). Main statement:
the references of such a text are replaced where they stand, and the break after the last line is
dropped (`resolve_written`).
-/

namespace TypedSettings.Reference

open Text

section
variable {env : Environment} {c : Char} {s r name : List Char} {l : List Piece}
  {ls : List (List Piece)}

def isName : List Char → Bool
  | [] => false
  | c :: r => startsName c && r.all continuesName

/-- A piece that is found again where it is written: a character that neither starts a reference nor
ends a line, or a reference. -/
def Piece.IsClear : Piece → Prop
  | char c => c ≠ '$' ∧ c ≠ '\n' ∧ c ≠ '\r'
  | reference name => isName name = true

/-- Lines of pieces as they are written, each with its break. -/
def written (ls : List (List Piece)) : List Char :=
  ls.flatMap fun l => l.flatMap Piece.written ++ ['\n']

/-! ## Lines -/

/-- A character that starts no break belongs to the first line. -/
theorem lines_cons {line : List Char} {rest : List (List Char)} (hfeed : c ≠ '\n')
    (hreturn : c = '\r' → s.head? ≠ some '\n') (h : lines s = line :: rest) :
    lines (c :: s) = (c :: line) :: rest := by
  rw [lines, if_neg hfeed, h]
  rintro r hc rfl
  exact hreturn hc rfl

theorem lines_append (hfeed : '\n' ∉ s) (hreturn : s.getLast? ≠ some '\r') (r : List Char) :
    lines (s ++ '\n' :: r) = s :: lines r := by
  induction s with
  | nil => simp [lines]
  | cons c s ih =>
    rw [List.mem_cons, not_or] at hfeed
    cases s with
    | nil =>
      have hc : c ≠ '\r' := by simpa using hreturn
      exact lines_cons (Ne.symm hfeed.1) (fun h => absurd h hc) (ih hfeed.2 (by simp))
    | cons d s =>
      have hd : d ≠ '\n' := fun h => hfeed.2 (h ▸ List.mem_cons_self)
      rw [List.getLast?_cons_cons] at hreturn
      exact lines_cons (Ne.symm hfeed.1) (fun _ => by simpa using hd) (ih hfeed.2 hreturn)

theorem not_break_of_continuesName (h : continuesName c = true) : c ≠ '\n' ∧ c ≠ '\r' :=
  ⟨ne_of_kind h rfl, ne_of_kind h rfl⟩

theorem continuesName_of_startsName (h : startsName c = true) : continuesName c = true := by
  simp [continuesName, h]

theorem isName_cons : isName (c :: r) = true ↔
    startsName c = true ∧ ∀ d ∈ r, continuesName d = true := by
  rw [isName, Bool.and_eq_true, List.all_eq_true]

theorem continuesName_of_isName (h : isName name = true) : ∀ c ∈ name, continuesName c = true := by
  cases name with
  | nil => cases h
  | cons c r =>
    obtain ⟨hstart, hrest⟩ := isName_cons.1 h
    exact List.forall_mem_cons.2 ⟨continuesName_of_startsName hstart, hrest⟩

theorem Piece.IsClear.not_break {p : Piece} (h : p.IsClear) :
    ∀ c ∈ p.written, c ≠ '\n' ∧ c ≠ '\r' := by
  cases p with
  | char c => exact List.forall_mem_singleton.2 h.2
  | reference name =>
    intro c hc
    simp only [Piece.written, List.mem_cons, List.mem_append, List.not_mem_nil, or_false] at hc
    rcases hc with rfl | rfl | hc | rfl
    · decide
    · decide
    · exact not_break_of_continuesName (continuesName_of_isName h c hc)
    · decide

/-- Lines without other breaks are found again. -/
theorem lines_written (h : ∀ l ∈ ls, ∀ p ∈ l, p.IsClear) :
    lines (written ls) = ls.map (List.flatMap Piece.written) := by
  induction ls with
  | nil => rfl
  | cons l ls ih =>
    obtain ⟨hl, hls⟩ := List.forall_mem_cons.1 h
    have hbreaks : ∀ c ∈ l.flatMap Piece.written, c ≠ '\n' ∧ c ≠ '\r' := by
      intro c hc
      obtain ⟨p, hp, hc⟩ := List.mem_flatMap.1 hc
      exact (hl p hp).not_break c hc
    have hreturn : (l.flatMap Piece.written).getLast? ≠ some '\r' := fun hlast =>
      (hbreaks _ (List.mem_of_getLast? hlast)).2 rfl
    have hcut := lines_append (fun hfeed => (hbreaks _ hfeed).1 rfl) hreturn (written ls)
    rw [ih hls] at hcut
    simpa [written] using hcut

/-! ## Pieces -/

theorem nameAfterDollar?_name (h : isName name = true) (r : List Char) :
    nameAfterDollar? ('\x7b' :: (name ++ '\x7d' :: r)) = some name := by
  cases name with
  | nil => cases h
  | cons c name =>
    obtain ⟨hstart, hrest⟩ := isName_cons.1 h
    obtain ⟨htake, hdrop⟩ := takeWhile_run hrest (r := '\x7d' :: r) (by simp; decide)
    simp only [nameAfterDollar?, List.cons_append, hstart, hdrop, htake, List.head?_cons,
      beq_self_eq_true, Bool.and_self, if_true]

theorem pieces_drop (n : Nat) (s : List Char) : pieces n s = pieces 0 (s.drop n) := by
  induction s generalizing n with
  | nil => cases n <;> rfl
  | cons c s ih =>
    cases n with
    | zero => rfl
    | succ n => simpa [pieces] using ih n

theorem pieces_cons {p : Piece} (h : p.IsClear) (r : List Char) :
    pieces 0 (p.written ++ r) = p :: pieces 0 r := by
  cases p with
  | char c => simp [Piece.written, pieces, h.1]
  | reference name =>
    have hname := nameAfterDollar?_name h r
    rw [Piece.written]
    simp only [List.cons_append, List.append_assoc, List.nil_append, pieces, if_true, hname]
    rw [pieces_drop]
    congr 2
    simp

/-- Clear pieces are found again. -/
theorem pieces_written (h : ∀ p ∈ l, p.IsClear) : pieces 0 (l.flatMap Piece.written) = l := by
  induction l with
  | nil => rfl
  | cons p l ih =>
    obtain ⟨hp, hl⟩ := List.forall_mem_cons.1 h
    rw [List.flatMap_cons, pieces_cons hp, ih hl]

/-! ## Pieces that are characters -/

theorem flatMap_written_chars (s : List Char) : (s.map Piece.char).flatMap Piece.written = s := by
  rw [List.flatMap_map]
  exact List.flatMap_singleton' s

theorem flatMap_replaced_chars (env : Environment) (s : List Char) :
    (s.map Piece.char).flatMap (Piece.replaced env) = s := by
  rw [List.flatMap_map]
  exact List.flatMap_singleton' s

/-! ## Replacing references -/

/-- A line of a text that has its references replaced: its pieces are found again, it is no
comment, and the variables are set. -/
structure Ready (env : Environment) (l : List Piece) : Prop where
  clear : ∀ p ∈ l, p.IsClear
  noComment : isComment (l.flatMap Piece.written) = false
  set : ∀ p ∈ l, p.missing? env = none

/-- A piece that may stand anywhere in a line without making it a comment. -/
structure Plain (env : Environment) (p : Piece) : Prop where
  clear : p.IsClear
  noMark : '#' ∉ p.written
  set : p.missing? env = none

theorem plain_char (h : c ≠ '$' ∧ c ≠ '\n' ∧ c ≠ '\r' ∧ c ≠ '#') : Plain env (.char c) :=
  ⟨⟨h.1, h.2.1, h.2.2.1⟩, by simp [Piece.written, h.2.2.2.symm], rfl⟩

theorem plain_reference {t : String} (h : isName name = true)
    (ht : env (String.ofList name) = some t) : Plain env (.reference name) := by
  refine ⟨h, fun hmark => ?_, by simp [Piece.missing?, ht]⟩
  have hname : '#' ∈ name := by simpa [Piece.written] using hmark
  exact absurd (continuesName_of_isName h '#' hname) (by decide)

theorem plain_chars (h : ∀ c ∈ s, c ≠ '$' ∧ c ≠ '\n' ∧ c ≠ '\r' ∧ c ≠ '#') :
    ∀ p ∈ s.map Piece.char, Plain env p :=
  List.forall_mem_map.2 fun c hc => plain_char (h c hc)

/-- A line of plain pieces is no comment. -/
theorem ready_of_plain (h : ∀ p ∈ l, Plain env p) : Ready env l := by
  refine ⟨fun p hp => (h p hp).clear, ?_, fun p hp => (h p hp).set⟩
  rw [isComment, beq_eq_false_iff_ne]
  intro hfirst
  have hmark : '#' ∈ l.flatMap Piece.written :=
    (List.dropWhile_sublist isBlank).subset (List.mem_of_mem_head? hfirst)
  obtain ⟨p, hp, hwritten⟩ := List.mem_flatMap.1 hmark
  exact (h p hp).noMark hwritten

/-- The references of a text are replaced where they stand. -/
theorem resolve_written (h : ∀ l ∈ ls, Ready env l) :
    resolve env (String.ofList (written ls)) =
      .ok (String.ofList (['\n'].intercalate (ls.map (List.flatMap (Piece.replaced env))))) := by
  have hlines := lines_written fun l hl => (h l hl).clear
  have hmissing : missing env (String.ofList (written ls)) = [] := by
    rw [missing, String.toList_ofList, hlines, List.flatMap_map]
    have hnone : ∀ l ∈ ls, missingOfLine env (l.flatMap Piece.written) = [] := by
      intro l hl
      simp only [missingOfLine, (h l hl).noComment, pieces_written (h l hl).clear]
      exact List.filterMap_eq_nil_iff.2 (h l hl).set
    rw [List.flatMap_eq_nil_iff.2 hnone]
    rfl
  have hreplaced : ∀ l ∈ ls,
      replaceLine env (l.flatMap Piece.written) = l.flatMap (Piece.replaced env) := by
    intro l hl
    simp only [replaceLine, (h l hl).noComment, pieces_written (h l hl).clear, Bool.false_eq_true,
      if_false]
  rw [resolve, hmissing, replace, String.toList_ofList, hlines, List.map_map]
  simp only [List.isEmpty_nil, if_true, Except.ok.injEq]
  congr 2
  exact List.map_congr_left hreplaced

end

end TypedSettings.Reference
