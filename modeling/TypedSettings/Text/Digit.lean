/-!
# Digits

The digits of a base up to sixteen in either case, and the number that a run of them writes. The
main statement is `ofDigits_append`: a run is read from its most significant digit on.
-/

namespace TypedSettings.Text

/-- The number that a digit stands for, in bases up to sixteen. -/
def digitValue? (c : Char) : Option Nat :=
  if '0' ≤ c ∧ c ≤ '9' then some (c.toNat - '0'.toNat)
  else if 'a' ≤ c ∧ c ≤ 'f' then some (c.toNat - 'a'.toNat + 10)
  else if 'A' ≤ c ∧ c ≤ 'F' then some (c.toNat - 'A'.toNat + 10)
  else none

def isDigitOf (base : Nat) (c : Char) : Bool :=
  (digitValue? c).any (· < base)

/-- The number that a run of digits of the base writes. -/
def ofDigits (base : Nat) (ds : List Char) : Nat :=
  ds.foldl (fun n c => n * base + (digitValue? c).getD 0) 0

def decimalDigits (n : Nat) : List Char := Nat.toDigits 10 n

/-- The text of an integer: a minus sign where it is negative, and its digits. -/
def ofInt (n : Int) : List Char :=
  if n < 0 then '-' :: decimalDigits n.natAbs else decimalDigits n.natAbs

theorem ofDigits_nil (base : Nat) : ofDigits base [] = 0 := rfl

theorem ofDigits_append (base : Nat) (ds : List Char) (c : Char) :
    ofDigits base (ds ++ [c]) = ofDigits base ds * base + (digitValue? c).getD 0 := by
  simp [ofDigits]

end TypedSettings.Text
