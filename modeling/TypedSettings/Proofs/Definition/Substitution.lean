import Mathlib.Data.List.Forall2
import Mathlib.Data.List.Induction
import TypedSettings.Definition.Document
import TypedSettings.Proofs.Definition.References
import TypedSettings.Proofs.Table

/-!
# Replacing the references of a text

A text has lines, and a line that is no comment is cut from left to right: where a reference begins
it is one piece, and elsewhere a character is (`Cuts`). That is how references are found
(`cuts_iff`), and none that stands in the line is missed (`reference_mem_iff`). Main statement: every
reference gives way to what its variable holds, which is not cut again, and all else stays; if there
are references to variables that are not set, these are listed, each once, by their first reference
(`resolve_substitutes`).
-/

namespace TypedSettings.Reference

open Text

/-! ## Lines -/

/-- The text has the lines. Each but the last ends with a line feed, perhaps after a carriage
return, and the last may. -/
inductive HasLines : List Char → List (List Char) → Prop where
  | nil : HasLines [] []
  | last {line : List Char} : line ≠ [] → '\n' ∉ line → HasLines line [line]
  | feed {line r : List Char} {ls : List (List Char)} : '\n' ∉ line → line.getLast? ≠ some '\r' →
      HasLines r ls → HasLines (line ++ '\n' :: r) (line :: ls)
  | returnFeed {line r : List Char} {ls : List (List Char)} : '\n' ∉ line →
      HasLines r ls → HasLines (line ++ '\r' :: '\n' :: r) (line :: ls)

/-- The first character of the line that is not blank is a number sign. -/
def IsCommentLine (line : List Char) : Prop :=
  ∃ blanks rest, line = blanks ++ '#' :: rest ∧ ∀ c ∈ blanks, isBlank c = true

section
variable {s line : List Char} {c : Char} {ls : List (List Char)}

theorem lines_append_return (hfeed : '\n' ∉ s) (r : List Char) :
    lines (s ++ '\r' :: '\n' :: r) = s :: lines r := by
  induction s with
  | nil => rfl
  | cons c s ih =>
    rw [List.mem_cons, not_or] at hfeed
    refine lines_cons (Ne.symm hfeed.1) (fun _ hhead => ?_) (ih hfeed.2)
    cases s with
    | nil => cases hhead
    | cons d s =>
      cases hhead
      exact hfeed.2 List.mem_cons_self

theorem lines_last (hs : s ≠ []) (hfeed : '\n' ∉ s) : lines s = [s] := by
  induction s with
  | nil => exact absurd rfl hs
  | cons c s ih =>
    rw [List.mem_cons, not_or] at hfeed
    cases s with
    | nil => simp [lines, Ne.symm hfeed.1]
    | cons d s =>
      refine lines_cons (Ne.symm hfeed.1) (fun _ hhead => ?_) (ih (List.cons_ne_nil _ _) hfeed.2)
      cases hhead
      exact hfeed.2 List.mem_cons_self

theorem lines_of_hasLines (h : HasLines s ls) : lines s = ls := by
  induction h with
  | nil => rfl
  | last hne hfeed => exact lines_last hne hfeed
  | feed hfeed hreturn _ ih => rw [lines_append hfeed hreturn, ih]
  | returnFeed hfeed _ ih => rw [lines_append_return hfeed, ih]

/-- By induction on the length of the text, which is cut at its first line feed. -/
theorem exists_hasLines (s : List Char) : ∃ ls, HasLines s ls := by
  induction hn : s.length using Nat.strongRecOn generalizing s with
  | ind n ih =>
    subst hn
    by_cases hfeed : '\n' ∈ s
    · obtain ⟨line, r, rfl, hline⟩ := List.eq_append_cons_of_mem hfeed
      have hshorter : r.length < (line ++ '\n' :: r).length := by
        rw [List.length_append, List.length_cons]
        omega
      obtain ⟨ls, hls⟩ := ih _ hshorter r rfl
      by_cases hreturn : line.getLast? = some '\r'
      · obtain ⟨line, rfl⟩ := List.getLast?_eq_some_iff.1 hreturn
        rw [List.append_assoc]
        exact ⟨_, .returnFeed (fun h => hline (List.mem_append_left _ h)) hls⟩
      · exact ⟨_, .feed hline hreturn hls⟩
    · by_cases hs : s = []
      · subst hs
        exact ⟨_, .nil⟩
      · exact ⟨_, .last hs hfeed⟩

theorem hasLines_iff : HasLines s ls ↔ lines s = ls := by
  constructor
  · exact lines_of_hasLines
  · rintro rfl
    obtain ⟨ls, h⟩ := exists_hasLines s
    rw [lines_of_hasLines h]
    exact h

theorem isCommentLine_iff : IsCommentLine line ↔ isComment line = true := by
  rw [isComment, beq_iff_eq]
  constructor
  · rintro ⟨blanks, rest, rfl, hblanks⟩
    obtain ⟨_, hrest⟩ := takeWhile_run hblanks (r := '#' :: rest) (by simp; decide)
    rw [hrest]
    rfl
  · obtain ⟨blanks, rest, rfl, hblanks, hrest⟩ := exists_run isBlank line
    rw [(takeWhile_run hblanks hrest).2]
    intro hhead
    obtain ⟨rest, rfl⟩ := List.head?_eq_some_iff.1 hhead
    exact ⟨blanks, rest, rfl, hblanks⟩

end

/-! ## Pieces -/

/-- The line is cut into the pieces from left to right: into a reference where one begins, and into
single characters elsewhere. -/
inductive Cuts : List Char → List Piece → Prop where
  | nil : Cuts [] []
  | reference {name r : List Char} {ps : List Piece} : isName name = true → Cuts r ps →
      Cuts ((Piece.reference name).written ++ r) (.reference name :: ps)
  | char {c : Char} {r : List Char} {ps : List Piece} :
      (∀ name, isName name = true → ¬ (Piece.reference name).written <+: c :: r) → Cuts r ps →
      Cuts (c :: r) (.char c :: ps)

/-- The pieces of a line: a comment has no references. -/
inductive LineCuts (line : List Char) : List Piece → Prop where
  | comment : IsCommentLine line → LineCuts line (line.map .char)
  | cuts {ps : List Piece} : ¬ IsCommentLine line → Cuts line ps → LineCuts line ps

section
variable {s r name line : List Char} {c : Char} {ps : List Piece}

theorem isName_of_nameAfterDollar (h : nameAfterDollar? s = some name) : isName name = true := by
  unfold nameAfterDollar? at h
  split at h
  · rename_i c r
    split at h
    · rename_i hc
      cases h
      rw [Bool.and_eq_true] at hc
      exact isName_cons.2 ⟨hc.1, List.all_eq_true.1 List.all_takeWhile⟩
    · cases h
  · cases h

/-- Where no reference begins a character is a piece. -/
theorem pieces_char (h : ∀ name, isName name = true → ¬ (Piece.reference name).written <+: c :: r) :
    pieces 0 (c :: r) = .char c :: pieces 0 r := by
  rw [pieces]
  split
  · rename_i name hname
    split at hname
    · rename_i hc
      subst hc
      have hwritten : (Piece.reference name).written ++ r.drop (name.length + 2) = '$' :: r := by
        conv => rhs; rw [eq_of_nameAfterDollar hname]
        simp [Piece.written]
      exact absurd ⟨_, hwritten⟩ (h name (isName_of_nameAfterDollar hname))
    · cases hname
  · rfl

theorem pieces_of_cuts (h : Cuts s ps) : pieces 0 s = ps := by
  induction h with
  | nil => rfl
  | @reference name _ _ hname _ ih => rw [pieces_cons (p := .reference name) hname, ih]
  | char hchar _ ih => rw [pieces_char hchar, ih]

/-- By induction on the length of the line, from which its first piece is cut. -/
theorem exists_cuts (s : List Char) : ∃ ps, Cuts s ps := by
  induction hn : s.length using Nat.strongRecOn generalizing s with
  | ind n ih =>
    subst hn
    cases s with
    | nil => exact ⟨_, .nil⟩
    | cons c r =>
      by_cases h : ∃ name, isName name = true ∧ (Piece.reference name).written <+: c :: r
      · obtain ⟨name, hname, rest, hrest⟩ := h
        have hshorter : rest.length < (c :: r).length := by
          rw [← hrest, List.length_append]
          exact Nat.lt_add_of_pos_left (Nat.zero_lt_succ _)
        obtain ⟨ps, hps⟩ := ih _ hshorter rest rfl
        rw [← hrest]
        exact ⟨_, .reference hname hps⟩
      · obtain ⟨ps, hps⟩ := ih _ (Nat.lt_succ_self _) r rfl
        exact ⟨_, .char (fun name hname hprefix => h ⟨name, hname, hprefix⟩) hps⟩

/-- The pieces are those that the line is cut into. -/
theorem cuts_iff : Cuts s ps ↔ pieces 0 s = ps := by
  constructor
  · exact pieces_of_cuts
  · rintro rfl
    obtain ⟨ps, h⟩ := exists_cuts s
    rw [pieces_of_cuts h]
    exact h

theorem infix_of_infix_append {u : List Char} (hu : ∀ d ∈ u, d ≠ c) (h : c :: r <:+: u ++ s) :
    c :: r <:+: s := by
  induction u with
  | nil => exact h
  | cons d u ih =>
    obtain ⟨hd, hu⟩ := List.forall_mem_cons.1 hu
    rcases List.infix_cons_iff.1 h with hprefix | h
    · exact absurd (List.cons_prefix_cons.1 hprefix).1.symm hd
    · exact ih hu h

/-- References do not overlap. -/
theorem infix_reference_append {other : List Char} (hname : isName name = true)
    (hother : isName other = true)
    (h : (Piece.reference other).written <:+: (Piece.reference name).written ++ s) :
    other = name ∨ (Piece.reference other).written <:+: s := by
  rw [Piece.written, Piece.written, List.cons_append] at h
  rcases List.infix_cons_iff.1 h with ⟨t, ht⟩ | h
  · -- both are cut off first
    have hfirst := (pieces_cons (p := .reference other) hother t).symm.trans
      ((congrArg (pieces 0) ht).trans (pieces_cons (p := .reference name) hname s))
    exact .inl (Piece.reference.inj (List.cons.inj hfirst).1)
  · refine .inr (infix_of_infix_append (fun d hd => ?_) h)
    simp only [List.mem_cons, List.mem_append, List.not_mem_nil, or_false] at hd
    rcases hd with rfl | hd | rfl
    · decide
    · exact ne_of_kind (continuesName_of_isName hname d hd) rfl
    · decide

/-- The references among the pieces are those that stand in the line. -/
theorem reference_mem_iff (h : Cuts s ps) : .reference name ∈ ps ↔
    isName name = true ∧ (Piece.reference name).written <:+: s := by
  constructor
  · intro hmem
    induction h with
    | nil => cases hmem
    | @reference other r ps hother _ ih =>
      rcases List.mem_cons.1 hmem with heq | hmem
      · cases heq
        exact ⟨hother, (List.prefix_append _ _).isInfix⟩
      · obtain ⟨hname, hinfix⟩ := ih hmem
        exact ⟨hname, hinfix.trans (List.suffix_append _ _).isInfix⟩
    | char _ _ ih =>
      obtain ⟨hname, hinfix⟩ := ih ((List.mem_cons.1 hmem).resolve_left nofun)
      exact ⟨hname, List.infix_cons hinfix⟩
  · rintro ⟨hname, hinfix⟩
    induction h with
    | nil => simp [Piece.written] at hinfix
    | @reference other r ps hother _ ih =>
      rcases infix_reference_append hother hname hinfix with rfl | hinfix
      · exact List.mem_cons_self
      · exact List.mem_cons_of_mem _ (ih hinfix)
    | char hchar _ ih =>
      rcases List.infix_cons_iff.1 hinfix with hprefix | hinfix
      · exact absurd hprefix (hchar name hname)
      · exact List.mem_cons_of_mem _ (ih hinfix)

def cutOf (line : List Char) : List Piece :=
  if isComment line then line.map .char else pieces 0 line

theorem lineCuts_iff : LineCuts line ps ↔ cutOf line = ps := by
  unfold cutOf
  constructor
  · intro h
    cases h with
    | comment hcomment => rw [if_pos (isCommentLine_iff.1 hcomment)]
    | cuts hcomment hcuts => rw [if_neg (mt isCommentLine_iff.2 hcomment), cuts_iff.1 hcuts]
  · rintro rfl
    split
    · rename_i hcomment
      exact .comment (isCommentLine_iff.2 hcomment)
    · rename_i hcomment
      exact .cuts (mt isCommentLine_iff.1 hcomment) (cuts_iff.2 rfl)

theorem reference_mem_cutOf_iff : .reference name ∈ cutOf line ↔
    ¬ IsCommentLine line ∧ isName name = true ∧ (Piece.reference name).written <:+: line := by
  rw [isCommentLine_iff, cutOf]
  split
  · rename_i hcomment
    simp [hcomment]
  · rename_i hcomment
    rw [← reference_mem_iff (cuts_iff.2 rfl)]
    simp [hcomment]

end

/-! ## Names by their first place -/

/-- The names of a list, each once, by their first place in it. -/
structure ListsOnce (names l : List String) : Prop where
  mem_iff : ∀ x, x ∈ names ↔ x ∈ l
  ordered : names.Pairwise fun a b => l.idxOf a < l.idxOf b

section
variable {names l : List String}

theorem listsOnce_eraseDups (l : List String) : ListsOnce l.eraseDups l := by
  refine ⟨fun x => List.mem_eraseDups, ?_⟩
  -- by induction from the end, where a name is listed if it is new
  induction l using List.reverseRecOn with
  | nil => exact List.Pairwise.nil
  | append_singleton l x ih =>
    have hbefore : l.eraseDups.Pairwise fun a b => (l ++ [x]).idxOf a < (l ++ [x]).idxOf b := by
      refine ih.imp_of_mem fun ha hb hlt => ?_
      rwa [List.idxOf_append_of_mem (List.mem_eraseDups.1 ha),
        List.idxOf_append_of_mem (List.mem_eraseDups.1 hb)]
    rw [List.eraseDups_append]
    by_cases hx : x ∈ l
    · simpa [List.removeAll, hx] using hbefore
    · have hnew : [x].removeAll l = [x] := by simp [List.removeAll, hx]
      rw [hnew]
      refine List.pairwise_append.2 ⟨hbefore, List.pairwise_singleton _ _, fun a ha b hb => ?_⟩
      have ha := List.mem_eraseDups.1 ha
      rw [List.mem_eraseDups, List.mem_singleton] at hb
      subst hb
      rw [List.idxOf_append_of_mem ha, List.idxOf_append_of_notMem hx]
      exact Nat.lt_add_right _ (List.idxOf_lt_length_of_mem ha)

theorem listsOnce_iff : ListsOnce names l ↔ names = l.eraseDups := by
  constructor
  · intro h
    obtain ⟨hmem, hordered⟩ := listsOnce_eraseDups l
    refine eq_of_ordered Nat.lt_irrefl Nat.lt_trans h.ordered hordered fun x => ?_
    rw [h.mem_iff, hmem]
  · rintro rfl
    exact listsOnce_eraseDups l

end

/-! ## Replacing references -/

/-- The text has the lines, and these have the pieces. -/
structure Cut (text : String) (ls : List (List Char)) (cuts : List (List Piece)) : Prop where
  lines : HasLines text.toList ls
  pieces : List.Forall₂ LineCuts ls cuts

/-- A line that is no comment refers to the variable. -/
def RefersTo (ls : List (List Char)) (source : String) : Prop :=
  ∃ line ∈ ls, ¬ IsCommentLine line ∧ isName source.toList = true ∧
    (Piece.reference source.toList).written <:+: line

/-- The variable that a piece refers to. -/
def Piece.source? : Piece → Option String
  | char _ => none
  | reference name => some (String.ofList name)

/-- The references to variables that are not set, in their order. -/
def unset (env : Environment) (cuts : List (List Piece)) : List String :=
  (cuts.flatten.filterMap Piece.source?).filter fun source => (env source).isNone

/-- What the piece becomes: a character stays, and a reference becomes what its variable holds. -/
inductive Piece.Becomes (env : Environment) : Piece → List Char → Prop where
  | char (c : Char) : Becomes env (.char c) [c]
  | reference {name : List Char} {value : String} : env (String.ofList name) = some value →
      Becomes env (.reference name) value.toList

def LineBecomes (env : Environment) (ps : List Piece) (line : List Char) : Prop :=
  ∃ parts, List.Forall₂ (Piece.Becomes env) ps parts ∧ line = parts.flatten

section
variable {env : Environment} {text : String} {line : List Char} {ps : List Piece}
  {ls : List (List Char)} {cuts : List (List Piece)}

/-- What is related to the items of a list, if they all pass a test, is what a function makes of
them. -/
theorem forall₂_iff_map {α β : Type} {R : α → β → Prop} {P : α → Prop} {f : α → β}
    (h : ∀ a b, R a b ↔ P a ∧ f a = b) {l : List α} {u : List β} :
    List.Forall₂ R l u ↔ (∀ a ∈ l, P a) ∧ l.map f = u := by
  induction l generalizing u with
  | nil => simp [eq_comm]
  | cons a l ih =>
    rw [List.forall₂_cons_left_iff, List.forall_mem_cons, List.map_cons]
    constructor
    · rintro ⟨b, u, hab, hlu, rfl⟩
      obtain ⟨ha, rfl⟩ := (h a b).1 hab
      obtain ⟨hl, rfl⟩ := ih.1 hlu
      exact ⟨⟨ha, hl⟩, rfl⟩
    · rintro ⟨⟨ha, hl⟩, rfl⟩
      exact ⟨f a, l.map f, (h _ _).2 ⟨ha, rfl⟩, ih.2 ⟨hl, rfl⟩, rfl⟩

theorem cut_iff : Cut text ls cuts ↔ lines text.toList = ls ∧ ls.map cutOf = cuts := by
  have hpieces : List.Forall₂ LineCuts ls cuts ↔ (∀ line ∈ ls, True) ∧ ls.map cutOf = cuts :=
    forall₂_iff_map fun _ _ => by rw [lineCuts_iff, true_and]
  constructor
  · intro h
    exact ⟨lines_of_hasLines h.lines, (hpieces.1 h.pieces).2⟩
  · rintro ⟨hlines, hcuts⟩
    exact ⟨hasLines_iff.2 hlines, hpieces.2 ⟨fun _ _ => trivial, hcuts⟩⟩

theorem replaceLine_eq (env : Environment) (line : List Char) :
    replaceLine env line = (cutOf line).flatMap (Piece.replaced env) := by
  unfold replaceLine cutOf
  split
  · rw [flatMap_replaced_chars]
  · rfl

theorem missingOfLine_eq (env : Environment) (line : List Char) :
    missingOfLine env line = (cutOf line).filterMap (Piece.missing? env) := by
  unfold missingOfLine cutOf
  split
  · rw [List.filterMap_map]
    exact (List.filterMap_eq_nil_iff.2 fun _ _ => rfl).symm
  · rfl

theorem missing?_eq (env : Environment) (p : Piece) :
    p.missing? env = p.source?.filter fun source => (env source).isNone := by
  cases p with
  | char c => rfl
  | reference name =>
    rw [Piece.missing?, Piece.source?, Option.filter_some]
    cases env (String.ofList name) <;> rfl

theorem unset_eq (env : Environment) (cuts : List (List Piece)) :
    unset env cuts = (cuts.map (List.filterMap (Piece.missing? env))).flatten := by
  rw [unset, List.filter_filterMap, ← List.filterMap_flatten]
  simp only [missing?_eq]

theorem missing_eq (h : Cut text ls cuts) : missing env text = (unset env cuts).eraseDups := by
  obtain ⟨rfl, rfl⟩ := cut_iff.1 h
  have hline : missingOfLine env = List.filterMap (Piece.missing? env) ∘ cutOf :=
    funext (missingOfLine_eq env)
  rw [missing, unset_eq, hline, List.map_map, List.flatMap_def]

theorem replace_eq (h : Cut text ls cuts) : replace env text =
    String.ofList (['\n'].intercalate (cuts.map (List.flatMap (Piece.replaced env)))) := by
  obtain ⟨rfl, rfl⟩ := cut_iff.1 h
  rw [replace, List.map_map]
  congr 2
  exact List.map_congr_left fun line _ => replaceLine_eq env line

theorem becomes_iff {p : Piece} {s : List Char} :
    p.Becomes env s ↔ p.missing? env = none ∧ p.replaced env = s := by
  constructor
  · intro h
    cases h with
    | char c => exact ⟨rfl, rfl⟩
    | reference hvalue => simp [Piece.missing?, Piece.replaced, hvalue]
  · rintro ⟨hset, rfl⟩
    cases p with
    | char c => exact .char c
    | reference name =>
      cases hvalue : env (String.ofList name) with
      | none => simp [Piece.missing?, hvalue] at hset
      | some value =>
        rw [Piece.replaced, hvalue]
        exact .reference hvalue

theorem lineBecomes_iff : LineBecomes env ps line ↔
    (∀ p ∈ ps, p.missing? env = none) ∧ ps.flatMap (Piece.replaced env) = line := by
  have hparts {parts : List (List Char)} : List.Forall₂ (Piece.Becomes env) ps parts ↔
      (∀ p ∈ ps, p.missing? env = none) ∧ ps.map (Piece.replaced env) = parts :=
    forall₂_iff_map (R := Piece.Becomes env) fun _ _ => becomes_iff
  constructor
  · rintro ⟨parts, hbecome, rfl⟩
    obtain ⟨hset, rfl⟩ := hparts.1 hbecome
    exact ⟨hset, List.flatMap_def⟩
  · rintro ⟨hset, rfl⟩
    exact ⟨_, hparts.2 ⟨hset, rfl⟩, List.flatMap_def⟩

theorem unset_eq_nil_iff :
    unset env cuts = [] ↔ ∀ ps ∈ cuts, ∀ p ∈ ps, p.missing? env = none := by
  simp only [unset_eq, List.flatten_eq_nil_iff, List.forall_mem_map, List.filterMap_eq_nil_iff]

/-- What is listed are the variables that the lines refer to in vain. -/
theorem mem_unset_iff (h : Cut text ls cuts) {source : String} :
    source ∈ unset env cuts ↔ RefersTo ls source ∧ env source = none := by
  obtain ⟨-, rfl⟩ := cut_iff.1 h
  have hsource (p : Piece) : p.source? = some source ↔ p = .reference source.toList := by
    cases p with
    | char c => simp [Piece.source?]
    | reference name =>
      simp only [Piece.source?, Option.some.injEq, Piece.reference.injEq]
      exact ⟨fun h => by rw [← h, String.toList_ofList], fun h => by rw [h, String.ofList_toList]⟩
  simp only [unset, RefersTo, List.mem_filter, List.mem_filterMap, List.mem_flatten, List.mem_map,
    hsource, Option.isNone_iff_eq_none, ← reference_mem_cutOf_iff]
  refine and_congr_left' ⟨?_, ?_⟩
  · rintro ⟨_, ⟨_, ⟨line, hline, rfl⟩, hmem⟩, rfl⟩
    exact ⟨line, hline, hmem⟩
  · rintro ⟨line, hline, hmem⟩
    exact ⟨_, ⟨_, ⟨line, hline, rfl⟩, hmem⟩, rfl⟩

theorem resolve_eq_error_iff {names : List String} :
    resolve env text = .error names ↔ names ≠ [] ∧ names = missing env text := by
  unfold resolve
  cases h : missing env text with
  | nil => simp
  | cons x l =>
    simp only [List.isEmpty_cons, Bool.false_eq_true, if_false, Except.error.injEq]
    constructor
    · rintro rfl
      exact ⟨List.cons_ne_nil _ _, rfl⟩
    · rintro ⟨_, rfl⟩
      rfl

theorem resolve_eq_ok_iff {out : String} :
    resolve env text = .ok out ↔ missing env text = [] ∧ replace env text = out := by
  unfold resolve
  cases missing env text <;> simp

section
variable (h : Cut text ls cuts)

include h

theorem exists_resolve_eq_error_iff : (∃ names, resolve env text = .error names) ↔
    ∃ source, RefersTo ls source ∧ env source = none := by
  simp only [← mem_unset_iff h, resolve_eq_error_iff, missing_eq h]
  constructor
  · rintro ⟨_, hne, rfl⟩
    obtain ⟨source, hsource⟩ := List.exists_mem_of_ne_nil _ hne
    exact ⟨source, List.mem_eraseDups.1 hsource⟩
  · rintro ⟨source, hsource⟩
    exact ⟨_, List.ne_nil_of_mem (List.mem_eraseDups.2 hsource), rfl⟩

theorem missing_eq_nil_iff :
    missing env text = [] ↔ ∀ ps ∈ cuts, ∀ p ∈ ps, p.missing? env = none := by
  rw [← unset_eq_nil_iff, missing_eq h]
  simp only [List.eq_nil_iff_forall_not_mem, List.mem_eraseDups]

theorem resolve_eq_ok_iff_becomes {out : String} : resolve env text = .ok out ↔
    ∃ outs, List.Forall₂ (LineBecomes env) cuts outs ∧
      out = String.ofList (['\n'].intercalate outs) := by
  have houts {outs : List (List Char)} : List.Forall₂ (LineBecomes env) cuts outs ↔
      (∀ ps ∈ cuts, ∀ p ∈ ps, p.missing? env = none) ∧
        cuts.map (List.flatMap (Piece.replaced env)) = outs :=
    forall₂_iff_map (R := LineBecomes env) fun _ _ => lineBecomes_iff
  rw [resolve_eq_ok_iff, missing_eq_nil_iff h, replace_eq h]
  constructor
  · rintro ⟨hset, rfl⟩
    exact ⟨_, houts.2 ⟨hset, rfl⟩, rfl⟩
  · rintro ⟨outs, hbecome, rfl⟩
    obtain ⟨hset, rfl⟩ := houts.1 hbecome
    exact ⟨hset, rfl⟩

end

end

/-- Every reference of a line that is no comment becomes what its variable holds, and every other
character stays. If there are references to variables that are not set, nothing is replaced, and the
variables are reported, each once, by their first reference. -/
theorem resolve_substitutes [Payloads] (env : Environment) (text : String) :
    (∃ ls cuts, Cut text ls cuts) ∧
    ∀ ls cuts, Cut text ls cuts →
      ((∃ names, resolve env text = .error names) ↔
        ∃ source, RefersTo ls source ∧ env source = none) ∧
      (∀ names, resolve env text = .error names ↔
        names ≠ [] ∧ ListsOnce names (unset env cuts)) ∧
      (∀ registry names, resolve env text = .error names →
        Definition.parse registry env text = .error (.configuration
          ("Missing required environment variables: " ++ ", ".intercalate names))) ∧
      ∀ out, resolve env text = .ok out ↔
        ∃ outs, List.Forall₂ (LineBecomes env) cuts outs ∧
          out = String.ofList (['\n'].intercalate outs) := by
  refine ⟨⟨_, _, cut_iff.2 ⟨rfl, rfl⟩⟩, fun ls cuts h => ⟨exists_resolve_eq_error_iff h,
    fun names => ?_, fun registry names hnames => ?_, fun out => resolve_eq_ok_iff_becomes h⟩⟩
  · rw [resolve_eq_error_iff, missing_eq h, listsOnce_iff]
  · rw [Definition.parse, hnames]
    rfl

open Payloads.Integers in
/-- Comments, names in lower case and references that are not closed stay as they are, and so does a
reference in what a variable holds. Variables that are not set are reported by their first
reference. -/
theorem resolve_substitutes_samples :
    let env := (Environment.empty.set "X" "$\x7bY\x7d").set "Y" "y"
    (∃ ls cuts outs,
      Cut " # $\x7bA\x7d\nA = \"$\x7bX\x7d\"\r\n$\x7by\x7d $\x7bX $$\x7bY\x7d\n" ls cuts ∧
      List.Forall₂ (LineBecomes env) cuts outs ∧
      String.ofList (['\n'].intercalate outs) =
        " # $\x7bA\x7d\nA = \"$\x7bY\x7d\"\n$\x7by\x7d $\x7bX $y") ∧
    Definition.parse {} env "$\x7bB\x7d $\x7bA\x7d\n $\x7bB\x7d$\x7bX\x7d" =
      .error (.configuration "Missing required environment variables: B, A") := by
  intro env
  constructor
  · have hread : resolve env
        " # $\x7bA\x7d\nA = \"$\x7bX\x7d\"\r\n$\x7by\x7d $\x7bX $$\x7bY\x7d\n" =
          .ok " # $\x7bA\x7d\nA = \"$\x7bY\x7d\"\n$\x7by\x7d $\x7bX $y" := by
      rfl
    obtain ⟨⟨ls, cuts, hcut⟩, hresolve⟩ := resolve_substitutes env
      " # $\x7bA\x7d\nA = \"$\x7bX\x7d\"\r\n$\x7by\x7d $\x7bX $$\x7bY\x7d\n"
    obtain ⟨_, _, _, hok⟩ := hresolve ls cuts hcut
    obtain ⟨outs, houts, htext⟩ := (hok _).1 hread
    exact ⟨ls, cuts, outs, hcut, houts, htext.symm⟩
  · have hread : resolve env "$\x7bB\x7d $\x7bA\x7d\n $\x7bB\x7d$\x7bX\x7d" =
        .error ["B", "A"] := by
      rfl
    obtain ⟨⟨ls, cuts, hcut⟩, hresolve⟩ := resolve_substitutes env
      "$\x7bB\x7d $\x7bA\x7d\n $\x7bB\x7d$\x7bX\x7d"
    obtain ⟨_, _, hmessage, _⟩ := hresolve ls cuts hcut
    exact hmessage {} _ hread

end TypedSettings.Reference
