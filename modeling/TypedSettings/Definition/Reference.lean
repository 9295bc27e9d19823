import TypedSettings.Environment.Basic
import TypedSettings.Text.Blank

/-!
# References

A definition text may refer to variables of the environment: a dollar sign and a name in braces
stand for the text of the variable. Comment lines are left alone, and what a variable holds is not
looked at for more references. Main statement: cutting a line into its references and the characters
between them loses nothing (`flatMap_written_pieces`).
-/

namespace TypedSettings.Reference

open Text

/-! ## Lines -/

/-- The lines of a text without their line breaks. -/
def lines : List Char → List (List Char)
  | [] => []
  | '\r' :: '\n' :: r => [] :: lines r
  | c :: r =>
    if c = '\n' then [] :: lines r
    else
      match lines r with
      | [] => [[c]]
      | l :: ls => (c :: l) :: ls

/-- Whether the first character of the line that is not blank starts a comment. -/
def isComment (line : List Char) : Bool := (line.dropWhile isBlank).head? == some '#'

/-! ## Pieces of a line -/

/-- A part of a line: a character that stands for itself, or a reference. -/
inductive Piece where
  | char (c : Char)
  | reference (name : List Char)
deriving DecidableEq

def Piece.written : Piece → List Char
  | char c => [c]
  | reference name => '$' :: '\x7b' :: (name ++ ['\x7d'])

def startsName (c : Char) : Bool := c.isUpper || c == '_'

def continuesName (c : Char) : Bool := startsName c || c.isDigit

/-- The name in a reference, from what follows its dollar sign. -/
def nameAfterDollar? : List Char → Option (List Char)
  | '\x7b' :: c :: r =>
    if startsName c && (r.dropWhile continuesName).head? == some '\x7d' then
      some (c :: r.takeWhile continuesName)
    else none
  | _ => none

/-- The pieces of a line, after as many characters as belong to the piece before. -/
def pieces : Nat → List Char → List Piece
  | _, [] => []
  | skip + 1, _ :: r => pieces skip r
  | 0, c :: r =>
    match if c = '$' then nameAfterDollar? r else none with
    | some name => .reference name :: pieces (name.length + 2) r
    | none => .char c :: pieces 0 r

/-! ## Replacing references -/

/-- A piece with the variable's text in place of a reference. -/
def Piece.replaced (env : Environment) : Piece → List Char
  | char c => [c]
  | reference name =>
    match env (String.ofList name) with
    | some text => text.toList
    | none => (reference name).written

/-- The variable that a piece refers to in vain. -/
def Piece.missing? (env : Environment) : Piece → Option String
  | char _ => none
  | reference name =>
    if (env (String.ofList name)).isSome then none else some (String.ofList name)

def replaceLine (env : Environment) (line : List Char) : List Char :=
  if isComment line then line else (pieces 0 line).flatMap (Piece.replaced env)

def missingOfLine (env : Environment) (line : List Char) : List String :=
  if isComment line then [] else (pieces 0 line).filterMap (Piece.missing? env)

/-- The variables that a text refers to in vain, each once, by their first reference. -/
def missing (env : Environment) (text : String) : List String :=
  ((lines text.toList).flatMap (missingOfLine env)).eraseDups

def replace (env : Environment) (text : String) : String :=
  String.ofList (['\n'].intercalate ((lines text.toList).map (replaceLine env)))

/-- `substitute_env_vars`: the text with its references replaced, or the variables that it
refers to in vain. -/
def resolve (env : Environment) (text : String) : Except (List String) String :=
  if (missing env text).isEmpty then .ok (replace env text) else .error (missing env text)

/-! ## Laws -/

theorem eq_of_nameAfterDollar {s name : List Char} (h : nameAfterDollar? s = some name) :
    s = '\x7b' :: (name ++ '\x7d' :: s.drop (name.length + 2)) := by
  unfold nameAfterDollar? at h
  split at h
  · rename_i c r
    split at h
    · rename_i hc
      cases h
      simp only [Bool.and_eq_true, beq_iff_eq] at hc
      obtain ⟨t, ht⟩ : ∃ t, r.dropWhile continuesName = '\x7d' :: t := by
        cases hd : r.dropWhile continuesName with
        | nil => simp [hd] at hc
        | cons d t => exact ⟨t, by simp_all⟩
      have hr : r = r.takeWhile continuesName ++ '\x7d' :: t := by
        rw [← ht, List.takeWhile_append_dropWhile]
      have hdrop : r.drop ((r.takeWhile continuesName).length + 1) = t := by
        conv => lhs; arg 2; rw [hr]
        rw [← List.drop_drop, List.drop_left]
        rfl
      simp only [List.cons_append, List.length_cons, List.drop_succ_cons, hdrop, List.cons.injEq,
        true_and]
      exact hr
    · cases h
  · cases h

theorem flatMap_written_pieces (skip : Nat) (s : List Char) :
    (pieces skip s).flatMap Piece.written = s.drop skip := by
  induction s generalizing skip with
  | nil => cases skip <;> simp [pieces]
  | cons c r ih =>
    cases skip with
    | succ skip => simp [pieces, ih]
    | zero =>
      unfold pieces
      split
      · rename_i name h
        split at h
        · rename_i hc
          subst hc
          simp only [List.flatMap_cons, Piece.written, ih, List.drop_zero, List.cons_append,
            List.append_assoc, List.nil_append]
          rw [← eq_of_nameAfterDollar h]
        · cases h
      · simp [Piece.written, ih]

end TypedSettings.Reference
