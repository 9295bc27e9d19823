import TypedSettings.Text.Blank

/-!
# Trivia

What may stand between two tokens of a literal: blanks, and comments from a number sign to the end
of the line. Main statement: after the trivia the input ends, or goes on with a character that is
neither a blank nor a number sign (`dropTrivia_head`).
-/

namespace TypedSettings.Literal

open Text

mutual

/-- `LiteralParser::skip_trivia`: the characters after the blanks and comments at the start. -/
def dropTrivia : List Char → List Char
  | [] => []
  | c :: r =>
    if isBlank c then dropTrivia r
    else if c = '#' then dropComment r
    else c :: r
termination_by structural s => s

/-- The characters after the rest of a comment and the trivia behind it. -/
def dropComment : List Char → List Char
  | [] => []
  | c :: r => if c = '\n' then dropTrivia r else dropComment r
termination_by structural s => s

end

mutual

theorem dropTrivia_head : ∀ s, ∀ c ∈ (dropTrivia s).head?, isBlank c = false ∧ c ≠ '#'
  | [] => by simp [dropTrivia]
  | c :: r => by
    simp only [dropTrivia]
    split
    · exact dropTrivia_head r
    · split
      · exact dropComment_head r
      · simp_all

theorem dropComment_head : ∀ s, ∀ c ∈ (dropComment s).head?, isBlank c = false ∧ c ≠ '#'
  | [] => by simp [dropComment]
  | c :: r => by
    simp only [dropComment]
    split
    · exact dropTrivia_head r
    · exact dropComment_head r

end

mutual

theorem length_dropTrivia_le : ∀ s, (dropTrivia s).length ≤ s.length
  | [] => by simp [dropTrivia]
  | c :: r => by
    simp only [dropTrivia]
    split
    · exact Nat.le_succ_of_le (length_dropTrivia_le r)
    · split
      · exact Nat.le_succ_of_le (length_dropComment_le r)
      · exact Nat.le_refl _

theorem length_dropComment_le : ∀ s, (dropComment s).length ≤ s.length
  | [] => by simp [dropComment]
  | c :: r => by
    simp only [dropComment]
    split
    · exact Nat.le_succ_of_le (length_dropTrivia_le r)
    · exact Nat.le_succ_of_le (length_dropComment_le r)

end

end TypedSettings.Literal
