import TypedSettings.Text.Hidden

/-!
# Texts on display

A text as it is displayed for diagnosis: in double quotes, with escapes, and with the characters
that could not be seen given by number.
-/

namespace TypedSettings.Text

/-- One character of a displayed text. -/
def showChar (c : Char) : List Char :=
  if c = '\x22' then ['\\', '\x22']
  else if c = '\\' then ['\\', '\\']
  else if c = '\n' then ['\\', 'n']
  else if c = '\r' then ['\\', 'r']
  else if c = '\t' then ['\\', 't']
  else if c.toNat = 0 then ['\\', '0']
  else if isHidden c then ['\\', 'u', '\x7b'] ++ Nat.toDigits 16 c.toNat ++ ['\x7d']
  else [c]

/-- A text in double quotes. -/
def shown (s : List Char) : List Char := '\x22' :: (s.flatMap showChar ++ ['\x22'])

end TypedSettings.Text
