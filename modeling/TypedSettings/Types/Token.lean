import TypedSettings.Text.Blank
import TypedSettings.Text.Numeral

/-!
# Tokens of type expressions

A type expression is cut into names, brackets, commas, bars and dots, each with the position of its
first byte; blanks between tokens are dropped. Main statement: every token begins inside the text
(`positions_lt`).
-/

namespace TypedSettings

open Text

inductive Token where
  | name (s : String)
  | opening
  | closing
  | comma
  | bar
  | dots
deriving DecidableEq

namespace Token

/-- A token and the number of bytes before it. -/
structure Placed where
  position : Nat
  token : Token
deriving DecidableEq

/-- `describe`, of a token: as it stands in an error text. -/
def describe : Token → String
  | name s => "'" ++ s ++ "'"
  | opening => "'['"
  | closing => "']'"
  | comma => "','"
  | bar => "'|'"
  | dots => "'...'"

def startsName (c : Char) : Bool := isLetter c || c == '_'

def continuesName (c : Char) : Bool := isWordChar c || c == '.'

/-- The token that starts with the character, and how many characters it takes from those that
follow. -/
def starting? (c : Char) (r : List Char) : Option (Token × Nat) :=
  match c, r with
  | '[', _ => some (opening, 0)
  | ']', _ => some (closing, 0)
  | ',', _ => some (comma, 0)
  | '|', _ => some (bar, 0)
  | '.', '.' :: '.' :: _ => some (dots, 2)
  | _, _ =>
    if startsName c then
      let rest := r.takeWhile continuesName
      some (name (String.ofList (c :: rest)), rest.length)
    else none

/-- A character that starts no token, and the number of bytes before it. -/
structure Stray where
  char : Char
  position : Nat
deriving DecidableEq

/-- `tokenize`: the tokens of the characters. `skip` of them belong to the token before, and
`position` bytes stand before them. -/
def scan (skip position : Nat) : List Char → Except Stray (List Placed)
  | [] => .ok []
  | c :: r =>
    match skip with
    | skip + 1 => scan skip (position + c.utf8Size) r
    | 0 =>
      if isBlank c then scan 0 (position + c.utf8Size) r
      else
        match starting? c r with
        | none => .error ⟨c, position⟩
        | some (token, taken) =>
          match scan taken (position + c.utf8Size) r with
          | .ok ts => .ok (⟨position, token⟩ :: ts)
          | .error stray => .error stray

def ofText (s : String) : Except Stray (List Placed) := scan 0 0 s.toList

def byteCount (s : List Char) : Nat := (s.map Char.utf8Size).foldr (· + ·) 0

theorem positions_lt {skip position : Nat} {s : List Char} {ts : List Placed}
    (h : scan skip position s = .ok ts) :
    ∀ t ∈ ts, position ≤ t.position ∧ t.position < position + byteCount s := by
  induction s generalizing skip position ts with
  | nil =>
    simp only [scan, Except.ok.injEq] at h
    simp [← h]
  | cons c r ih =>
    have hc : 0 < c.utf8Size := Char.utf8Size_pos c
    have hb : byteCount (c :: r) = c.utf8Size + byteCount r := by simp [byteCount]
    have step : ∀ {skip : Nat} {ts : List Placed}, scan skip (position + c.utf8Size) r = .ok ts →
        ∀ t ∈ ts, position ≤ t.position ∧ t.position < position + byteCount (c :: r) :=
      fun h t ht => by
        have := ih h t ht
        omega
    unfold scan at h
    split at h
    · exact step h
    · split at h
      · exact step h
      · split at h
        · cases h
        · rename_i token taken _
          split at h
          · rename_i us hr
            cases h
            intro t ht
            rcases List.mem_cons.1 ht with rfl | ht
            · exact ⟨Nat.le_refl _, by rw [hb]; exact Nat.lt_add_of_pos_right (by omega)⟩
            · exact step hr t ht
          · cases h

end Token

end TypedSettings
