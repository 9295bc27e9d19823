import TypedSettings.Text.Digit

/-!
# Reading integers

Signed integers from their texts, and the underscores that may separate digits. Main statement:
`withoutSeparators?` keeps every other character and its order (`withoutSeparators_eq_filter`).
-/

namespace TypedSettings.Number

open Text

/-- `strip_separators`: the text without its digit separators, if each stands between two
digits. The character before the text is given, if there is one. -/
def withoutSeparators? : Option Char → List Char → Option (List Char)
  | _, [] => some []
  | before, c :: r =>
    if c = '_' then
      if before.any Char.isDigit && r.head?.any Char.isDigit then withoutSeparators? (some c) r
      else none
    else (withoutSeparators? (some c) r).map (c :: ·)

def readInteger : List Char → Option Int
  | '-' :: ds => if !ds.isEmpty && ds.all Char.isDigit then some (-ofDigits 10 ds) else none
  | '+' :: ds => if !ds.isEmpty && ds.all Char.isDigit then some (ofDigits 10 ds) else none
  | ds => if !ds.isEmpty && ds.all Char.isDigit then some (ofDigits 10 ds) else none

/-- The integer that a text writes, if it fits 64 bits. -/
def readInt64 (s : List Char) : Option Int64 :=
  (readInteger s).bind fun n =>
    if Int64.minValue.toInt ≤ n ∧ n ≤ Int64.maxValue.toInt then some (Int64.ofInt n) else none

theorem withoutSeparators_eq_filter {before : Option Char} {s t : List Char}
    (h : withoutSeparators? before s = some t) : t = s.filter (· ≠ '_') := by
  induction s generalizing before t with
  | nil => simp_all [withoutSeparators?]
  | cons c r ih =>
    unfold withoutSeparators? at h
    split at h
    · split at h
      · rename_i hc _
        simp [hc, ih h]
      · cases h
    · rename_i hc
      obtain ⟨u, hu, rfl⟩ := Option.map_eq_some_iff.1 h
      simp [hc, ih hu]

end TypedSettings.Number
