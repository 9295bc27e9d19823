import TypedSettings.Text.Digit

/-!
# Dates and times

Dates of the Gregorian calendar, times of day and offsets from universal time, alone or together as
TOML allows it, with their texts. A fraction of a second is kept to nine places. Main statement: a
date that was read is a day of the calendar (`readDate_valid`).
-/

namespace TypedSettings

open Text

structure Date where
  year : Nat
  month : Nat
  day : Nat
deriving DecidableEq

structure Time where
  hour : Nat
  minute : Nat
  second : Nat
  nanosecond : Nat
deriving DecidableEq

/-- How far a time is from universal time. -/
inductive Offset where
  | universal
  | minutes (n : Int)
deriving DecidableEq

/-- What a date-time literal can say: a day, perhaps with a time, perhaps with an offset; or a time
alone. -/
inductive DateTime where
  | date (d : Date)
  | moment (d : Date) (t : Time) (offset? : Option Offset)
  | time (t : Time)
deriving DecidableEq

/-! ## Texts -/

/-- The digits of a number, filled up with zeros in front. -/
def paddedDigits (width n : Nat) : List Char :=
  List.replicate (width - (decimalDigits n).length) '0' ++ decimalDigits n

def Date.chars (d : Date) : List Char :=
  paddedDigits 4 d.year ++ '-' :: (paddedDigits 2 d.month ++ '-' :: paddedDigits 2 d.day)

/-- The text of a fraction of a second, without zeros at the end; nothing for a whole second. -/
def fractionChars (nanosecond : Nat) : List Char :=
  if nanosecond = 0 then []
  else '.' :: ((paddedDigits 9 nanosecond).reverse.dropWhile (· == '0')).reverse

def Time.chars (t : Time) : List Char :=
  paddedDigits 2 t.hour ++ ':' :: (paddedDigits 2 t.minute ++ ':' :: (paddedDigits 2 t.second ++
    fractionChars t.nanosecond))

/-- The text of an offset; no offset is negative zero. -/
def Offset.chars : Offset → List Char
  | universal => ['Z']
  | minutes n =>
    (if n < 0 then '-' else '+') ::
      (paddedDigits 2 (n.natAbs / 60) ++ ':' :: paddedDigits 2 (n.natAbs % 60))

def DateTime.chars : DateTime → List Char
  | date d => d.chars
  | moment d t none => d.chars ++ 'T' :: t.chars
  | moment d t (some offset) => d.chars ++ 'T' :: (t.chars ++ offset.chars)
  | time t => t.chars

/-! ## The calendar -/

def isLeapYear (year : Nat) : Bool :=
  year % 4 == 0 && (year % 100 != 0 || year % 400 == 0)

def daysIn (year month : Nat) : Nat :=
  if month = 2 then (if isLeapYear year then 29 else 28)
  else if month = 4 ∨ month = 6 ∨ month = 9 ∨ month = 11 then 30
  else 31

def Date.Valid (d : Date) : Prop :=
  1 ≤ d.month ∧ d.month ≤ 12 ∧ 1 ≤ d.day ∧ d.day ≤ daysIn d.year d.month

/-- Whether there is such a time; a minute may have a leap second. -/
def Time.Valid (t : Time) : Prop :=
  t.hour ≤ 23 ∧ t.minute ≤ 59 ∧ t.second ≤ 60

instance (d : Date) : Decidable d.Valid := inferInstanceAs (Decidable (_ ∧ _ ∧ _ ∧ _))

instance (t : Time) : Decidable t.Valid := inferInstanceAs (Decidable (_ ∧ _ ∧ _))

/-! ## Reading -/

/-- The number of exactly so many digits, and what follows. -/
def fixedDigits? (width : Nat) (s : List Char) : Option (Nat × List Char) :=
  if (s.take width).length = width ∧ (s.take width).all Char.isDigit then
    some (ofDigits 10 (s.take width), s.drop width)
  else none

def skip? (c : Char) : List Char → Option (List Char)
  | [] => none
  | d :: r => if d = c then some r else none

def readDate (s : List Char) : Option (Date × List Char) := do
  let (year, s) ← fixedDigits? 4 s
  let (month, s) ← fixedDigits? 2 (← skip? '-' s)
  let (day, s) ← fixedDigits? 2 (← skip? '-' s)
  if (Date.mk year month day).Valid then some (⟨year, month, day⟩, s) else none

/-- The nanoseconds that the digits after the point say; more than nine are cut off. -/
def nanoseconds (ds : List Char) : Nat := ofDigits 10 ((ds ++ List.replicate 9 '0').take 9)

def readFraction (s : List Char) : Nat × List Char :=
  match skip? '.' s with
  | none => (0, s)
  | some r =>
    if (r.takeWhile Char.isDigit).isEmpty then (0, s)
    else (nanoseconds (r.takeWhile Char.isDigit), r.dropWhile Char.isDigit)

def readTime (s : List Char) : Option (Time × List Char) := do
  let (hour, s) ← fixedDigits? 2 s
  let (minute, s) ← fixedDigits? 2 (← skip? ':' s)
  let (second, s) ← fixedDigits? 2 (← skip? ':' s)
  let (nanosecond, s) := readFraction s
  if (Time.mk hour minute second nanosecond).Valid then some (⟨hour, minute, second, nanosecond⟩, s)
  else none

def readMinutes (s : List Char) : Option (Nat × List Char) := do
  let (hour, s) ← fixedDigits? 2 s
  let (minute, s) ← fixedDigits? 2 (← skip? ':' s)
  if hour ≤ 23 ∧ minute ≤ 59 then some (hour * 60 + minute, s) else none

def readOffset : List Char → Option (Offset × List Char)
  | [] => none
  | c :: r =>
    if c = 'Z' ∨ c = 'z' then some (.universal, r)
    else if c = '+' then (readMinutes r).map fun (n, r) => (.minutes n, r)
    else if c = '-' then (readMinutes r).map fun (n, r) => (.minutes (-n), r)
    else none

/-- What follows the character between a day and a time. -/
def skipDelimiter? : List Char → Option (List Char)
  | [] => none
  | c :: r => if c = 'T' ∨ c = 't' ∨ c = ' ' then some r else none

/-- Reads a date-time as far as it goes: a day that no time follows is a day alone. -/
def DateTime.read (s : List Char) : Option (DateTime × List Char) :=
  match readDate s with
  | none => (readTime s).map fun (t, r) => (.time t, r)
  | some (d, r) =>
    match (skipDelimiter? r).bind readTime with
    | none => some (.date d, r)
    | some (t, r) =>
      match readOffset r with
      | none => some (.moment d t none, r)
      | some (offset, r) => some (.moment d t (some offset), r)

/-! ## Laws -/

theorem readDate_valid {s r : List Char} {d : Date} (h : readDate s = some (d, r)) : d.Valid := by
  simp only [readDate, Option.bind_eq_bind, Option.bind_eq_some_iff] at h
  obtain ⟨_, _, _, _, _, _, _, _, _, _, h⟩ := h
  split at h
  · rename_i hv
    cases h
    exact hv
  · cases h

end TypedSettings
