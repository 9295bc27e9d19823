import TypedSettings.Number.Shortest

/-!
# The text of a double

Writing a double with the fewest digits that read back to it, in the layout that a `FloatLayout`
describes, and reading one from its parts or from a whole text. The main statements say where the
point stands: `layOut_whole`, `layOut_small`, `layOut_inside` and `layOut_exponent`.
-/

namespace TypedSettings.Number

open TypedSettings.Text

/-! ## Writing -/

/-- The decisions of a number format. -/
structure FloatLayout where
  /-- Least exponent of the leading digit that is written positionally. -/
  plainFrom : Int
  /-- First exponent of the leading digit that is no longer written positionally. -/
  plainBelow : Int
  /-- Whether a positive exponent carries a plus sign. -/
  plusExponent : Bool
  tie : Tie

/-- Lays out the digits of a number (the last of them not zero) whose leading digit counts
`10 ^ lead`. A positional text always has a digit on either side of the point. -/
def FloatLayout.layOut (l : FloatLayout) (ds : List Char) (lead : Int) : List Char :=
  if l.plainFrom ≤ lead ∧ lead < l.plainBelow then
    if lead < 0 then '0' :: '.' :: (List.replicate (-lead - 1).toNat '0' ++ ds)
    else if (ds.length : Int) ≤ lead + 1 then
      ds ++ List.replicate (lead.toNat + 1 - ds.length) '0' ++ ['.', '0']
    else ds.take (lead.toNat + 1) ++ '.' :: ds.drop (lead.toNat + 1)
  else
    let sign := if lead < 0 then ['-'] else if l.plusExponent then ['+'] else []
    ds.take 1 ++ (if ds.length ≤ 1 then [] else '.' :: ds.drop 1) ++
      'e' :: (sign ++ decimalDigits lead.natAbs)

/-- The text of a positive number given by its digits. -/
def FloatLayout.ofScientific (l : FloatLayout) (d : Scientific) : List Char :=
  let ds := decimalDigits d.digits
  l.layOut (ds.reverse.dropWhile (· == '0')).reverse (d.exponent + ds.length - 1)

def signBit (x : Float) : Bool := x.toBits >>> 63 == 1

/-- The double without its sign, as bits. -/
def magnitudeBits (x : Float) : UInt64 := x.toBits &&& 0x7FFFFFFFFFFFFFFF

/-- Whether the double is neither infinite nor no number. -/
def isFinite (x : Float) : Bool := magnitudeBits x < 0x7FF0000000000000

/-- Whether the double is no number. -/
def isNotANumber (x : Float) : Bool := magnitudeBits x > 0x7FF0000000000000

def FloatLayout.text (l : FloatLayout) (x : Float) : List Char :=
  if isNotANumber x then ['N', 'a', 'N']
  else
    let body :=
      if magnitudeBits x = 0x7FF0000000000000 then ['i', 'n', 'f']
      else if magnitudeBits x = 0 then ['0', '.', '0']
      else l.ofScientific ((Binary.ofBits (magnitudeBits x)).shortest l.tie)
    if signBit x then '-' :: body else body

theorem layOut_small {l : FloatLayout} {ds : List Char} {lead : Int} (hf : l.plainFrom ≤ lead)
    (hb : lead < l.plainBelow) (h : lead < 0) :
    l.layOut ds lead = '0' :: '.' :: (List.replicate (-lead - 1).toNat '0' ++ ds) := by
  simp [FloatLayout.layOut, hf, hb, h]

theorem layOut_whole {l : FloatLayout} {ds : List Char} {lead : Int} (hf : l.plainFrom ≤ lead)
    (hb : lead < l.plainBelow) (h : 0 ≤ lead) (hl : (ds.length : Int) ≤ lead + 1) :
    l.layOut ds lead = ds ++ List.replicate (lead.toNat + 1 - ds.length) '0' ++ ['.', '0'] := by
  simp [FloatLayout.layOut, hf, hb, hl, Int.not_lt.2 h]

theorem layOut_inside {l : FloatLayout} {ds : List Char} {lead : Int} (hf : l.plainFrom ≤ lead)
    (hb : lead < l.plainBelow) (h : 0 ≤ lead) (hl : lead + 1 < (ds.length : Int)) :
    l.layOut ds lead = ds.take (lead.toNat + 1) ++ '.' :: ds.drop (lead.toNat + 1) := by
  simp [FloatLayout.layOut, hf, hb, Int.not_lt.2 h, Int.not_le.2 hl]

/-- Behind the exponent mark stands the number of places, where it has no plus sign. -/
theorem layOut_exponent {l : FloatLayout} {ds : List Char} {lead : Int}
    (hl : lead < 0 ∨ l.plusExponent = false) (h : ¬ (l.plainFrom ≤ lead ∧ lead < l.plainBelow)) :
    l.layOut ds lead = ds.take 1 ++ (if ds.length ≤ 1 then [] else '.' :: ds.drop 1) ++
      'e' :: ofInt lead := by
  rw [FloatLayout.layOut, if_neg h, ofInt]
  rcases hl with hneg | hplus
  · simp only [if_pos hneg, List.singleton_append]
  · rw [hplus]
    split <;> rfl

/-! ## Reading -/

def infinity : Float := Float.ofBits 0x7FF0000000000000

def notANumber : Float := Float.ofBits 0x7FF8000000000000

/-- The double nearest to the number with these digits before and after the point, times a power
of ten. Far outside the range of doubles the power of ten need not be formed. -/
def nearestFloat (whole fraction : List Char) (exponent : Int) : Float :=
  let n := ofDigits 10 (whole ++ fraction)
  let e := exponent - fraction.length
  let top := (decimalDigits n).length + e
  if n = 0 then 0
  else if 400 < top then infinity
  else if top < -400 then 0
  else Float.ofScientific n (e < 0) e.natAbs

/-- The exponent part of a number: the mark, an optional sign and digits, up to the end. -/
def readExponent : List Char → Option Int
  | [] => some 0
  | mark :: r =>
    if mark = 'e' ∨ mark = 'E' then
      let (negative, ds) :=
        match r with
        | '-' :: r => (true, r)
        | '+' :: r => (false, r)
        | r => (false, r)
      if !ds.isEmpty && ds.all Char.isDigit then
        some (if negative then -(ofDigits 10 ds : Int) else ofDigits 10 ds)
      else none
    else none

/-- Reads an unsigned number: digits with an optional point among, before or after them, and an
optional exponent; or one of the words for infinity and no number, in any case. -/
def readMagnitude (s : List Char) : Option Float :=
  let word := s.map Char.toLower
  if word = ['i', 'n', 'f'] ∨ word = ['i', 'n', 'f', 'i', 'n', 'i', 't', 'y'] then some infinity
  else if word = ['n', 'a', 'n'] then some notANumber
  else
    let whole := s.takeWhile Char.isDigit
    let (fraction, r) :=
      match s.dropWhile Char.isDigit with
      | '.' :: r => (r.takeWhile Char.isDigit, r.dropWhile Char.isDigit)
      | r => ([], r)
    if whole.isEmpty && fraction.isEmpty then none
    else (readExponent r).map (nearestFloat whole fraction)

def readFloat : List Char → Option Float
  | '-' :: r => (readMagnitude r).map (- ·)
  | '+' :: r => readMagnitude r
  | s => readMagnitude s

end TypedSettings.Number
